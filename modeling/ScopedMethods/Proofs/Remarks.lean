import ScopedMethods.Proofs.Housing
import ScopedMethods.Proofs.Pinning
import ScopedMethods.Proofs.Upkeep

/-!
# Remarks

The statements of the program that uses the library bear no component of the library. No
work on a realm makes one of these: what a custody, a stack or a laying reports is for a
component of its own.
-/

set_option autoImplicit false

namespace ScopedMethods

/-- The entries that are for no component of the library. -/
def Journal.remarks (j : Journal) : List LogEntry :=
  j.entries.filter fun e => e.event.component = some .uncategorized

theorem Journal.remarks_remark {j : Journal} (t : Caller) (m : String)
    (h : j.admits .info (some .uncategorized) = true) :
    (j.note t (.remark (some .uncategorized) .info m)).remarks =
      j.remarks ++ [⟨t, .remark (some .uncategorized) .info m⟩] := by
  have hnote : j.note t (.remark (some .uncategorized) .info m) =
      j.take t (.remark (some .uncategorized) .info m) := if_pos h
  rw [hnote, take]
  cases hv : j.verbosity with
  | none => simp [admits, hv] at h
  | some v => simp [remarks, Event.component]

def Store.Unremarked (s s' : Store) : Prop := s'.journal.remarks = s.journal.remarks

/-- A keeper that takes no remarks. No custody makes one, so it works with this keeper as well. -/
def Keeper.muffled {ω : Type} (k : Keeper ω) : Keeper ω :=
  { k with note := fun t e w => if e.component = some .uncategorized then w else k.note t e w }

theorem refusalComponent_cases (r : Refusal) :
    Event.refusalComponent r = .scopes ∨ Event.refusalComponent r = .metadata := by
  cases r <;> simp [Event.refusalComponent]

namespace Store.Unremarked

variable {s s₁ s' : Store}

theorem refl (s : Store) : s.Unremarked s := rfl

theorem trans (h : s.Unremarked s₁) (h' : s₁.Unremarked s') : s.Unremarked s' := Eq.trans h' h

theorem note (h : s.Unremarked s') (t : Caller) {e : Event}
    (he : e.component ≠ some .uncategorized) : s.Unremarked (s'.note t e) := by
  refine .trans h ?_
  rw [Unremarked, Store.note, Journal.note]
  split
  · rw [Journal.take]
    split
    · rfl
    · simp [Journal.remarks, he]
  · rfl

theorem refuse (h : s.Unremarked s') (t : Caller) (id : Nat) (r : Refusal) :
    s.Unremarked (s'.refuse t id r) := by
  have hr : some (Event.refusalComponent r) ≠ some .uncategorized := by
    rcases refusalComponent_cases r with hr | hr <;> rw [hr] <;> decide
  have hs : s'.refuse t id r =
      ((Event.refusalText? id r).elim s' fun _ => s'.note t (.refused id r)).note t
        (.codeEmitted (Event.refusalComponent r) r.code) := by
    rw [Store.refuse, Journal.refuse]
    cases Event.refusalText? id r <;> rfl
  rw [hs]
  refine note ?_ t hr
  cases Event.refusalText? id r with
  | none => exact h
  | some text => exact h.note t (e := .refused id r) hr

theorem scopes (h : s.Unremarked s') (t : Caller) {e : Event} (he : e.component = some .scopes) :
    s.Unremarked (s'.note t e) :=
  h.note t (by rw [he]; decide)

end Store.Unremarked

namespace Site

abbrev Unremarked (w w' : Site) : Prop := w.store.Unremarked w'.store

variable (c : Catalog) (t : Caller) (w : Site)

theorem unremarked_enter : w.Unremarked (w.enter t).2 := by
  rw [enter_eq]
  split
  · exact (Store.Unremarked.refl _).refuse t _ _
  · exact (Store.Unremarked.refl w.store).scopes t rfl

theorem unremarked_touch (name : String) : w.Unremarked (w.touch t name).2 := by
  simp only [touch]
  cases w.stack.chain? name with
  | some id =>
    simp only
    split
    · exact .refl _
    · exact .scopes (.refl w.store) t rfl
  | none =>
    have hu : w.store.Unremarked (w.ledger.usage t name w.store).2.1 := by
      simp only [Ledger.usage]
      cases w.ledger.counters.get? name with
      | some k => exact .refl _
      | none => exact .scopes (.refl w.store) t rfl
    exact .scopes hu t rfl

theorem unremarked_offer (m : Method) : w.Unremarked (w.offer c t m).2 := by
  have ht := unremarked_touch t w m.name
  simp only [offer]
  generalize w.touch t m.name = o at ht
  obtain ⟨id, w₁⟩ := o
  simp only [Store.add] at ht ⊢
  cases c.place (.ofMethod m) (w₁.store.chain id).entries with
  | error f => exact ht
  | ok es => exact ht.scopes t rfl

theorem unremarked_announce (ty : TypeId) (n : Nat) : w.Unremarked (w.announce c t ty n).2 := by
  simp only [announce]
  split
  · cases c.typeName ty with
    | error f => exact .refl _
    | ok name => exact .scopes (.refl w.store) t rfl
  · exact .refl _

theorem unremarked_carry (tasks : List Task) : w.Unremarked (w.carry c t tasks).2 := by
  induction tasks generalizing w with
  | nil => exact .refl _
  | cons task tasks ih =>
    cases task with
    | ask q ty =>
      rw [carry]
      cases c.info q ty with
      | error f => exact .refl _
      | ok i => exact ih w
    | announce ty n =>
      have ha := unremarked_announce c t w ty n
      rw [carry]
      generalize w.announce c t ty n = o at ha
      obtain ⟨result, w₁⟩ := o
      cases result with
      | error f => exact ha
      | ok u => exact ha.trans (ih w₁)
    | offer m =>
      have ho := unremarked_offer c t w m
      rw [carry]
      generalize w.offer c t m = o at ho
      obtain ⟨result, w₁⟩ := o
      cases result with
      | error f => exact ho
      | ok u => exact ho.trans (ih w₁)

theorem unremarked_layTypes (types : List TypeId) (realm : Nat) :
    w.Unremarked (Realm.layTypes c t types realm w).2 := by
  rw [Realm.layTypes, layAll_eq_carry]
  exact .trans (.scopes (.refl w.store) t rfl) (unremarked_carry c t _ _)

theorem unremarked_leave : w.Unremarked (w.leave t) :=
  .scopes (congrArg Journal.remarks (revert_frame w.stack.level w.store w.stack.chains).2.1) t rfl

theorem unremarked_destroy : w.Unremarked (w.destroy t) := by
  have hleave : ∀ n (x : Site), x.Unremarked (leaveTimes t n x) := by
    intro n
    induction n with
    | zero => exact fun x => .refl _
    | succ n ih => exact fun x => (unremarked_leave t x).trans (ih _)
  rw [destroy]
  apply Store.Unremarked.scopes _ t rfl
  split
  · exact .refl _
  · exact .trans (.scopes (.refl w.store) t rfl) (hleave _ _)

end Site

namespace Grounds

def Unremarked (g g' : Grounds) : Prop := g.store.Unremarked g'.store

theorem unremarked_onStack {f : Site → Site} (hf : ∀ w : Site, w.Unremarked (f w)) (id : Nat)
    (g : Grounds) : g.Unremarked (g.onStack id f) := by
  rw [onStack]
  cases g.stackTable.get? id with
  | none => exact .refl _
  | some st => exact hf ⟨g.store, g.ledger, st⟩

theorem upholds_unremarked (o : Options) : (Grounds.keeper o).muffled.Upholds Unremarked where
  refl := fun g => .refl g.store
  trans := fun h h' => Store.Unremarked.trans h h'
  create := fun t g => unremarked_onStack (f := Site.created t)
    (fun w => .scopes (.refl w.store) t rfl) g.nextStack
    { g with
      stackTable := g.stackTable.set g.nextStack (ScopeStack.new g.nextStack o.maxDepth)
      nextStack := g.nextStack + 1 }
  destroy := fun t id g => unremarked_onStack (Site.unremarked_destroy t) id g
  note := by
    intro t e g
    simp only [Keeper.muffled]
    split
    · exact .refl g.store
    · exact .note (.refl g.store) t ‹_›

end Grounds

namespace Realm

variable (t : Caller) (r : Realm) (s : Store)

theorem unremarked_peek : s.Unremarked (r.peek t s).2.2 :=
  Custody.upheld_peek (Grounds.upholds_unremarked r.options) t r.custody (r.grounds s)

theorem unremarked_lookup (name : String) : s.Unremarked (r.lookup t name s).2.2 := by
  have h := unremarked_peek t r s
  simp only [lookup]
  generalize r.peek t s = o at h
  obtain ⟨found, r₁, s₁⟩ := o
  cases found <;> exact h

theorem unremarked_activeHere : s.Unremarked (r.activeHere t s).2.2 := by
  simp only [activeHere]
  split
  · exact .refl _
  · exact unremarked_peek t r s

theorem unremarked_leave (id : Nat) : s.Unremarked (r.leave t id s).2 := by
  have h := Grounds.unremarked_onStack (Site.unremarked_leave t) id (r.grounds s)
  simp only [leave]
  split
  · exact Store.Unremarked.trans h
      (Custody.upheld_surrender (Grounds.upholds_unremarked r.options) t r.custody _)
  · exact h

theorem unremarked_threadExit : s.Unremarked (r.threadExit t s).2 :=
  Custody.upheld_exit (Grounds.upholds_unremarked r.options) t r.custody (r.grounds s)

theorem unremarked_atStack {α : Type} {f : Site → Outcome Site α}
    (hf : ∀ w : Site, w.Unremarked (f w).2) (id : Nat) :
    s.Unremarked (r.atStack id f s).2.2 := by
  rw [atStack]
  cases r.stackTable.get? id with
  | none => exact .refl _
  | some st => exact hf ⟨s, r.ledger, st⟩

theorem unremarked_enterOn (c : Catalog) (types : List TypeId) (id : Nat) :
    s.Unremarked (enterOn c t types id r s).2.2 := by
  rw [enterOn, enterOnBy]
  generalize hopened : r.atStack id _ s = o
  have ho : s.Unremarked o.2.2 := by
    rw [← hopened]
    exact unremarked_atStack r s (Site.unremarked_enter t) id
  obtain ⟨opened, r₁, s₁⟩ := o
  cases opened with
  | error f => exact ho
  | ok u =>
    have hl := unremarked_atStack r₁ s₁ (f := layTypes c t types r₁.id)
      (fun w => Site.unremarked_layTypes c t w types r₁.id) id
    simp only
    generalize r₁.atStack id (layTypes c t types r₁.id) s₁ = o at hl ⊢
    obtain ⟨laid, r₂, s₂⟩ := o
    cases laid with
    | error f => exact ho.trans (hl.trans (unremarked_leave t r₂ s₂ id))
    | ok u => exact ho.trans hl

theorem unremarked_enter (c : Catalog) (types : List TypeId) :
    s.Unremarked (r.enter c t types s).2.2 := by
  have ho : s.Unremarked (r.custody.obtain r.keeper t (r.grounds s)).2.2.store :=
    Custody.upheld_obtain (Grounds.upholds_unremarked r.options) t r.custody (r.grounds s)
  rw [enter]
  generalize r.custody.obtain r.keeper t (r.grounds s) = o at ho ⊢
  obtain ⟨found, c₁, g⟩ := o
  cases found with
  | error f => exact ho
  | ok id => exact ho.trans (unremarked_enterOn t (r.settle c₁ g) g.store c types id)

end Realm

end ScopedMethods
