/-!
# Powers

Limits and sizes are written as powers, in definitions and in what is proved about them. Where
algebra is known, a whole number also has powers as an element of a monoid. They are the same
numbers; but types such as `Fin (2 ^ 128)` are written with a power, and should not depend on what
else is known. So powers with given exponents are those of the core library everywhere.
-/

attribute [default_instance 20000] instPowNat
