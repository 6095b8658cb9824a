import RecordLinkage.Identity.Name
import RecordLinkage.MatchKey.Method

/-!
# Methods that are set up already

Setting up a method takes time, so methods are kept for each tenant and match key, and used again as
long as the match key has the same method and the same parameters. A method that cannot be set up is
not kept, and leaves what was kept before.

Methods that are set up get serial numbers. Two answers of the cache are the same instance exactly
when their numbers are the same.
-/

namespace RecordLinkage

/-- A method with its number. -/
structure MethodInstance where
  /-- How many methods were set up before it. -/
  serial : Nat
  method : Method

/-- A method that is kept, with what it was set up for. -/
structure MethodCache.Entry where
  methodName : String
  params : Json
  kept : MethodInstance

/-- The methods that are kept. -/
structure MethodCache where
  /-- One entry at most for each tenant and match key. -/
  entries : List ((TenantId × String) × MethodCache.Entry)
  /-- How many methods have been set up. -/
  created : Nat

namespace MethodCache

def empty : MethodCache := ⟨[], 0⟩

/-- What is kept for a match key. -/
def entry? (c : MethodCache) (key : TenantId × String) : Option Entry :=
  (c.entries.find? fun e ↦ e.1 = key).map (·.2)

/-- The entries of all other match keys. -/
def without (c : MethodCache) (key : TenantId × String) :
    List ((TenantId × String) × Entry) :=
  c.entries.filter fun e ↦ e.1 ≠ key

/-- Whether an entry was set up as a match key asks for. -/
def Entry.fits (e : Entry) (k : MatchKey) : Bool :=
  e.methodName = k.method && e.params.same k.params

/-- Sets up the method of a match key, and keeps it if that succeeds. -/
def build (c : MethodCache) (key : TenantId × String) (k : MatchKey) :
    Except Fault MethodInstance × MethodCache :=
  match k.createMethod with
  | .error f => (.error f, c)
  | .ok method =>
    let kept : MethodInstance := ⟨c.created, method⟩
    (.ok kept, ⟨(key, ⟨k.method, k.params, kept⟩) :: c.without key, c.created + 1⟩)

/-- The method of a match key, set up if it is not kept. -/
def get (c : MethodCache) (tenant : TenantId) (k : MatchKey) :
    Except Fault MethodInstance × MethodCache :=
  let key := (tenant, k.id)
  match c.entry? key with
  | some e => if e.fits k then (.ok e.kept, c) else c.build key k
  | none => c.build key k

/-- Drops the method of a match key, and says whether there was one. -/
def purge (c : MethodCache) (tenant : TenantId) (id : String) : Bool × MethodCache :=
  let key := (tenant, id)
  ((c.entry? key).isSome, { c with entries := c.without key })

def purgeAll (c : MethodCache) : MethodCache := { c with entries := [] }

def size (c : MethodCache) : Nat := c.entries.length

end MethodCache

end RecordLinkage
