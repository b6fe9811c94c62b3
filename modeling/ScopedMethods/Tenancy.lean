import ScopedMethods.Custody

/-!
# Tenancies

A custody over plain states, which carry a text and can be busy. Making a
state can be set to fail a number of times, and busy states can be pinned.
-/

set_option autoImplicit false

namespace ScopedMethods

structure Tenant where
  stuff : String
  busy : Bool
deriving DecidableEq, Repr

/-- How a tenancy makes its states, and whether a busy one stays. -/
structure TenancyPlan where
  stuff : String
  pinsBusy : Bool
deriving DecidableEq, Repr

structure Lodge where
  store : Store
  tenants : Slots Nat Tenant
  nextTenant : Nat
  /-- The states that were destroyed, the latest first. -/
  departed : List Nat
  /-- How often making a state is still to fail. -/
  failures : Nat

structure Tenancy where
  plan : TenancyPlan
  failures : Nat
  custody : Custody

namespace Lodge

def create (p : TenancyPlan) (_ : Caller) (l : Lodge) : Outcome Lodge Nat :=
  match l.failures with
  | n + 1 => (.error (.raised "no state for you"), { l with failures := n })
  | 0 => (.ok l.nextTenant, { l with
      tenants := l.tenants.set l.nextTenant ⟨p.stuff, false⟩
      nextTenant := l.nextTenant + 1 })

def destroy (_ : Caller) (id : Nat) (l : Lodge) : Lodge :=
  { l with tenants := l.tenants.erase id, departed := id :: l.departed }

def busy (l : Lodge) (id : Nat) : Bool := (l.tenants.get? id).elim false Tenant.busy

def keeper (p : TenancyPlan) : Keeper Lodge where
  create := create p
  destroy := destroy
  reclaimable l id := !(p.pinsBusy && l.busy id)
  note t e l := { l with store := l.store.note t e }

/-- Changes a state; what is not given stays. -/
def change (l : Lodge) (id : Nat) (busy : Option Bool) (stuff : Option String) : Lodge :=
  match l.tenants.get? id with
  | none => l
  | some x => { l with tenants := l.tenants.set id ⟨stuff.getD x.stuff, busy.getD x.busy⟩ }

end Lodge

namespace Tenancy

def keeper (x : Tenancy) : Keeper Lodge := Lodge.keeper x.plan

def create (name : CustodyName) (p : TenancyPlan) (failures : Nat) (t : Caller) (s : Store) :
    Tenancy × Store :=
  (⟨p, failures, Custody.new name⟩, s.note t (.custodyCreated name))

end Tenancy

end ScopedMethods
