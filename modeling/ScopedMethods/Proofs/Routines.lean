import ScopedMethods.Proofs.Breaks

/-!
# Routines

A routine asks things of a realm and opens scopes for other routines, whose results it may use
or pass on. Whatever it does, its thread sees the same afterwards; so a call that runs one in a
scope leaves no trace, and gives the result of the routine or the failure of the entry.
-/

set_option autoImplicit false

namespace ScopedMethods

inductive Question where
  | lookup (name : String)
  | level
  | here
  | usage (name : String)
  | reclaim

def Question.Answer : Question → Type
  | lookup _ => Option ChainId
  | level => Level
  | here => Bool
  | usage _ => CounterId
  | reclaim => Nat

/-- What is run in a scope. Each scope that it opens has the metadata of that moment, which may
also fail where the catalog has no fault, at a task of the plan and with a failure. -/
inductive Routine (α : Type) where
  | ends (result : Except Failure α)
  | asks (q : Question) (next : q.Answer → Routine α)
  | opens (c : Catalog) (types : List TypeId) (stop : Option (Nat × Failure))
      (inner : Routine α) (next : Except Failure α → Routine α)

/-- At most so many scopes are open in each other. -/
def Routine.Nests {α : Type} : Routine α → Nat → Prop
  | ends _, _ => True
  | asks _ next, n => ∀ answer, (next answer).Nests n
  | opens _ _ _ inner next, n => 0 < n ∧ inner.Nests (n - 1) ∧ ∀ result, (next result).Nests n

namespace Realm

def ask (t : Caller) : (q : Question) → Realm → Store → q.Answer × Realm × Store
  | .lookup name, r, s => r.lookup t name s
  | .level, r, s => r.currentLevel t s
  | .here, r, s => r.activeHere t s
  | .usage name, r, s => r.nameUsage t name s
  | .reclaim, r, s => r.requestReclaim t s

def enterUpTo (c : Catalog) (t : Caller) (types : List TypeId) (stop : Option (Nat × Failure))
    (r : Realm) (s : Store) : Except Failure Nat × Realm × Store :=
  match stop with
  | none => r.enter c t types s
  | some (n, f) => r.breakOff c t types n f s

variable {α : Type}

def host (t : Caller) (body : Realm → Store → Except Failure α × Realm × Store) :
    Except Failure Nat × Realm × Store → Except Failure α × Realm × Store
  | (.error f, r, s) => (.error f, r, s)
  | (.ok id, r, s) =>
    let (result, r, s) := body r s
    let (r, s) := r.leave t id s
    (result, r, s)

def withinUpTo (c : Catalog) (t : Caller) (types : List TypeId) (stop : Option (Nat × Failure))
    (body : Realm → Store → Except Failure α × Realm × Store) (r : Realm) (s : Store) :
    Except Failure α × Realm × Store :=
  match stop with
  | none => r.within c t types body s
  | some (n, f) => host t body (r.breakOff c t types n f s)

theorem withinUpTo_eq (c : Catalog) (t : Caller) (types : List TypeId)
    (stop : Option (Nat × Failure)) (body : Realm → Store → Except Failure α × Realm × Store)
    (r : Realm) (s : Store) :
    r.withinUpTo c t types stop body s = host t body (r.enterUpTo c t types stop s) := by
  cases stop <;> rfl

end Realm

def Routine.run {α : Type} (t : Caller) :
    Routine α → Realm → Store → Except Failure α × Realm × Store
  | ends result, r, s => (result, r, s)
  | asks q next, r, s =>
    let (answer, r, s) := r.ask t q s
    (next answer).run t r s
  | opens c types stop inner next, r, s =>
    let (result, r, s) := r.withinUpTo c t types stop (inner.run t) s
    (next result).run t r s

def Outlook.verdictUpTo (o : Outlook) (c : Catalog) (limit : Level) (traced : Bool)
    (types : List TypeId) : Option (Nat × Failure) → Except Failure Unit
  | none => o.verdict c limit traced types
  | some (n, f) => .error (o.broken c limit traced types n f)

namespace Realm

/-- A scope is refused and nothing is seen of it, or the thread is inside of it and leaving
gives back what the thread saw. -/
structure Opened (t : Nat) (r : Realm) (s : Store) (result : Except Failure Nat) (r' : Realm)
    (s' : Store) : Prop where
  move : Move t r s r' s'
  pinned : (r.outlook s t).level ≠ 0 → r'.custody.held? t = r.custody.held? t
  refused : ∀ f, result = .error f → r'.outlook s' t = r.outlook s t
  entered : ∀ id, result = .ok id → r'.custody.held? t = some id ∧
    (r'.outlook s' t).level.toNat = (r.outlook s t).level.toNat + 1 ∧
    (r'.outlook s' t).leave = r.outlook s t

variable {α : Type} {r r' : Realm} {s s' : Store} {t : Caller} {c : Catalog}
  {types : List TypeId}

theorem quiet_ask (hr : r.Sound s) (t : Caller) (q : Question) :
    Quiet t.thread r s (r.ask t q s).2.1 (r.ask t q s).2.2 := by
  cases q with
  | lookup name => exact (lookup_spec hr t name).1
  | level => exact (currentLevel_spec hr t).1
  | here => exact (activeHere_spec hr t).1
  | usage name => exact quiet_nameUsage hr t name
  | reclaim => exact quiet_requestReclaim hr t

theorem Entry.opened {t : Nat} {result : Except Failure Nat}
    (h : Entry c t types r s result r' s') : Opened t r s result r' s' :=
  ⟨h.move, h.pinned, h.refused, fun id hid =>
    let ⟨hheld, hover⟩ := h.entered id hid
    ⟨hheld, hover.level, hover.leave⟩⟩

theorem enterUpTo_spec (hr : r.Sound s) (c : Catalog) (t : Caller) (types : List TypeId)
    (stop : Option (Nat × Failure))
    (hl : r.options.maxDepth = 0 → (r.outlook s t.thread).level.toNat + 1 < 2 ^ 32) :
    Opened t.thread r s (r.enterUpTo c t types stop s).1 (r.enterUpTo c t types stop s).2.1
        (r.enterUpTo c t types stop s).2.2 ∧
      (r.enterUpTo c t types stop s).1.map (fun _ => ()) =
        (r.outlook s t.thread).verdictUpTo c r.options.maxDepth s.traced types stop := by
  cases stop with
  | none =>
    have he := enter_spec hr c t types hl
    exact ⟨he.opened, he.verdict⟩
  | some p =>
    obtain ⟨n, f⟩ := p
    obtain ⟨he, hq⟩ := breakOff_spec hr c t types n f hl
    have hres : (r.enterUpTo c t types (some (n, f)) s).1 = _ := he
    rw [hres]
    exact ⟨⟨hq.move, hq.pinned, fun _ _ => hq.same, fun _ h => nomatch h⟩, rfl⟩

/-- A scope is left however its body ends, so that a body after which the thread sees what it
saw in the scope makes the whole call one of which it sees nothing. -/
theorem quiet_host {body : Realm → Store → Except Failure α × Realm × Store}
    {o : Except Failure Nat × Realm × Store} (ho : Opened t.thread r s o.1 o.2.1 o.2.2)
    (hq : Quiet t.thread o.2.1 o.2.2 (body o.2.1 o.2.2).2.1 (body o.2.1 o.2.2).2.2) :
    Quiet t.thread r s (host t body o).2.1 (host t body o).2.2 := by
  obtain ⟨result, r₁, s₁⟩ := o
  cases result with
  | error f => exact ⟨ho.move, ho.refused f rfl, ho.pinned⟩
  | ok id =>
    obtain ⟨hheld, hlevel, hleave⟩ := ho.entered id rfl
    have hpos : 0 < (r₁.outlook s₁ t.thread).level.toNat := by
      rw [hlevel]
      exact Nat.succ_pos _
    have hinside := Outlook.level_ne_zero hlevel
    simp only [host]
    generalize body r₁ s₁ = o at hq
    obtain ⟨ended, r₂, s₂⟩ := o
    obtain ⟨hmove, hsame, hpinned⟩ := leave_spec hq.move.sound
      ((hq.pinned hinside).trans hheld) (by
        rw [hq.same]
        exact hpos)
    rw [hq.same, hleave] at hsame hpinned
    refine ⟨(ho.move.trans hq.move).trans hmove, hsame, fun h0 => ?_⟩
    rw [hpinned h0, ← ho.pinned h0, hheld]

theorem quiet_withinUpTo (hr : r.Sound s) (c : Catalog) (t : Caller) (types : List TypeId)
    (stop : Option (Nat × Failure)) (body : Realm → Store → Except Failure α × Realm × Store)
    {n : Nat} (hl : r.options.maxDepth = 0 → (r.outlook s t.thread).level.toNat + 1 + n < 2 ^ 32)
    (hb : ∀ {r₁ : Realm} {s₁ : Store}, r₁.Sound s₁ →
      (r₁.options.maxDepth = 0 → (r₁.outlook s₁ t.thread).level.toNat + n < 2 ^ 32) →
      Quiet t.thread r₁ s₁ (body r₁ s₁).2.1 (body r₁ s₁).2.2) :
    Quiet t.thread r s (r.withinUpTo c t types stop body s).2.1
      (r.withinUpTo c t types stop body s).2.2 := by
  obtain ⟨ho, -⟩ := enterUpTo_spec hr c t types stop fun h0 => by
    have h := hl h0
    omega
  rw [withinUpTo_eq]
  refine quiet_host ho (hb ho.move.sound fun h0 => ?_)
  rw [ho.move.options] at h0
  have h := hl h0
  rcases hres : (r.enterUpTo c t types stop s).1 with f | id
  · rw [ho.refused f hres]
    omega
  · rw [(ho.entered id hres).2.1]
    exact h

/-- A routine is not seen afterwards: by induction on it, with the level that it starts at and
the scopes that it may still open in each other below the greatest level there is. -/
theorem quiet_run (hr : r.Sound s) (b : Routine α) {n : Nat} (hn : b.Nests n) (t : Caller)
    (hl : r.options.maxDepth = 0 → (r.outlook s t.thread).level.toNat + n < 2 ^ 32) :
    Quiet t.thread r s (b.run t r s).2.1 (b.run t r s).2.2 := by
  induction b generalizing r s n with
  | ends result => exact .refl hr _
  | asks q next ih =>
    have hq := quiet_ask hr t q
    rw [Routine.run]
    generalize r.ask t q s = o at hq
    obtain ⟨answer, r₁, s₁⟩ := o
    refine hq.trans (ih answer hq.move.sound (hn answer) ?_)
    rw [hq.same, hq.move.options]
    exact hl
  | opens c types stop inner next ihInner ihNext =>
    obtain ⟨hpos, hinner, hnext⟩ := hn
    have hq := quiet_withinUpTo hr c t types stop (inner.run t) (n := n - 1)
      (fun h0 => by have h := hl h0; omega) fun hr₁ hl₁ => ihInner hr₁ hinner hl₁
    rw [Routine.run]
    generalize r.withinUpTo c t types stop (inner.run t) s = o at hq
    obtain ⟨result, r₁, s₁⟩ := o
    refine hq.trans (ihNext result hq.move.sound (hnext result) ?_)
    rw [hq.same, hq.move.options]
    exact hl

end Realm

end ScopedMethods
