import ScopedMethods.Session.Basic

/-!
# Steps on tenancies
-/

set_option autoImplicit false

namespace ScopedMethods.Session

def lodge (s : Session) (x : Tenancy) : Lodge :=
  ⟨s.store, s.tenants, s.nextTenant, s.departed, x.failures⟩

def setLodge (s : Session) (l : Lodge) : Session :=
  { s.setStore l.store with
    tenants := l.tenants, nextTenant := l.nextTenant, departed := l.departed }

def setTenancy (s : Session) (slot : String) (x : Tenancy) (c : Custody) (l : Lodge) : Session :=
  { s.setLodge l with
    tenancies := s.tenancies.set slot { x with custody := c, failures := l.failures } }

def tenantView (s : Session) (id : Nat) : Option TenantView :=
  (s.tenants.get? id).map fun x => ⟨id, x⟩

def tenantAnswer (s : Session) (id : Option Nat) : Answer := .tenant (id.bind s.tenantView)

def registeredViews (c : Custody) (thread : Nat) : List RegisteredView :=
  let views := c.register.map fun r =>
    RegisteredView.mk r.state r.nickname (r.owner = thread) (c.pending r.owner)
  views.mergeSort fun a b => a.id ≤ b.id

def closeTenancy (s : Session) (t : Nat) (slot : String) : Session :=
  match s.tenancies.get? slot with
  | none => s
  | some x =>
    let (_, l) := x.custody.close x.keeper (s.caller t) (s.lodge x)
    { s.setLodge l with tenancies := s.tenancies.erase slot }

/-- A new tenancy takes the place of an older one in its slot, which is closed
once the new one is there. -/
def createTenancy (s : Session) (t : Nat) (slot nickname : String) (p : TenancyPlan)
    (failures : Nat) : Session :=
  let name := ⟨nickname, s.nextTenancy, "State"⟩
  let (x, m) := Tenancy.create name p failures (s.caller t) s.store
  let s := (s.setStore m).closeTenancy t slot
  { s with tenancies := s.tenancies.set slot x, nextTenancy := s.nextTenancy + 1 }

def tenancyStep (s : Session) (t : Nat) (slot : String) (step : TenancyStep) :
    Answer × Session :=
  let caller := s.caller t
  match step, s.tenancies.get? slot with
  | .create nickname p failures, _ => (.nothing, s.createTenancy t slot nickname p failures)
  | _, none => (.failure .outOfRange, s)
  | .obtain, some x =>
    let (r, c, l) := x.custody.obtain x.keeper caller (s.lodge x)
    let s := s.setTenancy slot x c l
    (failed r fun id => s.tenantAnswer (some id), s)
  | .peek, some x =>
    let (id, c, l) := x.custody.peek x.keeper caller (s.lodge x)
    let s := s.setTenancy slot x c l
    (s.tenantAnswer id, s)
  | .release, some x =>
    let (b, c, l) := x.custody.surrender x.keeper caller (s.lodge x)
    (.flag b, s.setTenancy slot x c l)
  | .reclaim, some x =>
    let (n, c, l) := x.custody.requestReclaim x.keeper caller (s.lodge x)
    (.number n, s.setTenancy slot x c l)
  | .count, some x => (.number x.custody.size, s)
  | .change busy stuff, some x =>
    let (r, c, l) := x.custody.obtain x.keeper caller (s.lodge x)
    match r with
    | .error f => (.failure f, s.setTenancy slot x c l)
    | .ok id =>
      let s := s.setTenancy slot x c (l.change id busy stuff)
      (s.tenantAnswer (some id), s)
  | .list, some x => (.register (registeredViews x.custody t), s)
  | .name, some x => (.custodyName x.custody.name.nickname x.custody.name.text, s)
  | .destroy, some _ => (.nothing, s.closeTenancy t slot)

def exitTenancy (t : Nat) (s : Session) (slot : String) : Session :=
  match s.tenancies.get? slot with
  | none => s
  | some x =>
    let (c, l) := x.custody.exit x.keeper (s.caller t) (s.lodge x)
    s.setTenancy slot x c l

def exitTenancies (s : Session) (t : Nat) : Session :=
  s.tenancies.keys.foldl (exitTenancy t) s

end ScopedMethods.Session
