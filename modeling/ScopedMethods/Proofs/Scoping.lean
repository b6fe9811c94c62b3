import ScopedMethods.Proofs.Housing
import ScopedMethods.Proofs.Plan

/-!
# Entering and leaving scopes of a realm

Whether a scope can be entered is decided by the depth limit and then by the
queries of its laying, in order. A refused entry leaves the outlook as it was;
an entered scope is laid over it, and leaving brings it back.
-/

set_option autoImplicit false

namespace ScopedMethods

def Store.traced (s : Store) : Bool := s.journal.admits .trace (some .scopes)

theorem Store.Keeps.traced {s s' : Store} (h : s.Keeps s') : s'.traced = s.traced :=
  Site.admits_congr h.verbosity _ _

namespace Outlook

def entries (o : Outlook) (name : String) : List Candidate := (o.lineage name).entries

/-- How an entry ends: at the depth limit, at the first query that fails, or well. -/
def verdict (o : Outlook) (c : Catalog) (limit : Level) (traced : Bool) (types : List TypeId) :
    Except Failure Unit :=
  if limit ≠ 0 ∧ limit.toNat ≤ o.level.toNat then .error (.code .nestingTooDeep)
  else c.answered (c.tree.queries traced (c.tree.plan types) o.entries) ()

/-- The outlook inside a scope that lays types over an outer outlook. -/
structure Over (tree : TypeTree) (types : List TypeId) (o o' : Outlook) : Prop where
  level : o'.level.toNat = o.level.toNat + 1
  leave : o'.leave = o
  ladder : ∀ name, (o'.lineage name).ladder =
    Site.grown tree o'.level (tree.laid types) name (o.lineage name).ladder

end Outlook

namespace Site

variable {w w₁ w₂ : Site}

theorem leave_outlook (hw : w.Sound) (he : Entered w w₁) (ha : Advance w₁ w₂) :
    w₂.outlook.leave = w.outlook := by
  have hlevel : w₂.stack.level.toNat = w.stack.level.toNat + 1 := by rw [ha.level, he.level]
  have h1 : w₂.stack.level - 1 = w.stack.level := by
    have h0 : 0 < w₂.stack.level.toNat := by omega
    have h := level_leave h0
    exact UInt32.toNat_inj.1 (by omega)
  have h2 : ∀ name, (w₂.lineage name).popped w₂.stack.level = w.lineage name := by
    intro name
    have hp := ha.popped name
    rw [he.lineage, Lineage.popped_of_sloped (hw.sloped name) (by rw [he.level]; omega)] at hp
    rw [ha.level, hp]
  show (⟨w₂.stack.level - 1, fun name => (w₂.lineage name).popped w₂.stack.level⟩ : Outlook) =
    ⟨w.stack.level, w.lineage⟩
  rw [h1, funext h2]

theorem laying_spec (c : Catalog) (t : Caller) (types : List TypeId) (realm : Nat) (hw : w.Sound)
    (he : Entered w w₁) :
    Turn w (Realm.layTypes c t types realm w₁).2 ∧
      (Realm.layTypes c t types realm w₁).2.outlook.leave = w.outlook ∧
      (Realm.layTypes c t types realm w₁).2.stack.level.toNat = w.stack.level.toNat + 1 ∧
      (Realm.layTypes c t types realm w₁).1 =
        c.answered (c.tree.queries w.store.traced (c.tree.plan types) w.outlook.entries) () ∧
      ((Realm.layTypes c t types realm w₁).1 = .ok () →
        w.outlook.Over c.tree types (Realm.layTypes c t types realm w₁).2.outlook) := by
  have hn : (w₁.note t (.typesLaid realm types.length w₁.stack.level)).Sound :=
    sound_note he.sound t _
  have h0 : 0 < (w₁.note t (.typesLaid realm types.length w₁.stack.level)).stack.level.toNat := by
    show 0 < w₁.stack.level.toNat
    rw [he.level]
    omega
  obtain ⟨ha, hr, hl⟩ := carry_spec c t (c.tree.plan types) hn h0
  have ht : (w₁.note t (.typesLaid realm types.length w₁.stack.level)).traced = w.store.traced :=
    admits_congr ((Journal.verbosity_note _ t _).trans he.verbosity) _ _
  have hes : (w₁.note t (.typesLaid realm types.length w₁.stack.level)).entries =
      w.outlook.entries := by
    funext name
    show (w₁.lineage name).entries = (w.lineage name).entries
    rw [he.lineage]
  rw [Realm.layTypes, layAll_eq_carry]
  rw [ht, hes] at hr
  have ha' : Advance w₁ (carry c t (c.tree.plan types)
      (w₁.note t (.typesLaid realm types.length w₁.stack.level))).2 :=
    ((Advance.refl he.sound).note t _).trans ha
  have hleave := leave_outlook hw he ha'
  have hlevel := (congrArg UInt32.toNat ha'.level).trans he.level
  refine ⟨(Turn.of_entered he).trans (.of_advance ha' he.owns), hleave, hlevel, hr, ?_⟩
  intro hok
  refine ⟨hlevel, hleave, ?_⟩
  intro name
  have h := hl hok name
  rw [TypeTree.methods_plan] at h
  have hold : (w₁.note t (.typesLaid realm types.length w₁.stack.level)).ladder name =
      (w.lineage name).ladder := by
    show (w₁.lineage name).ladder = _
    rw [he.lineage]
  rw [hold] at h
  show _ = grown c.tree (carry c t (c.tree.plan types)
    (w₁.note t (.typesLaid realm types.length w₁.stack.level))).2.stack.level _ name _
  rw [ha'.level]
  exact h

end Site

namespace Realm

variable {r : Realm} {s : Store} {t : Caller} {id : Nat} {st : ScopeStack}

theorem leave_spec (hr : r.Sound s) (hid : r.custody.held? t.thread = some id)
    (h0 : 0 < (r.outlook s t.thread).level.toNat) :
    Move t.thread r s (r.leave t id s).1 (r.leave t id s).2 ∧
      (r.leave t id s).1.outlook (r.leave t id s).2 t.thread = (r.outlook s t.thread).leave ∧
      ((r.outlook s t.thread).leave.level ≠ 0 →
        (r.leave t id s).1.custody.held? t.thread = some id) := by
  obtain ⟨st, hst⟩ := hr.stack_of_held hid
  have hw := hr.sites hst
  have hold : r.outlook s t.thread = (⟨s, r.ledger, st⟩ : Site).outlook := outlook_some hid hst
  rw [hold] at h0 ⊢
  obtain ⟨hm, hout⟩ := move_turn hr hid hst (.of_shed (Site.shed_leave t hw h0))
  rw [Site.outlook_leave t hw] at hout
  have hg : (r.grounds s).stackTable.get? id = some st := hst
  rw [leave, onStack_eq hg]
  split
  · rename_i hz
    have hlevel : (⟨s, r.ledger, st⟩ : Site).outlook.leave.level = 0 := by
      have h1 := (Bool.and_eq_true_iff.1 hz).1
      have h2 := of_decide_eq_true h1
      rw [Grounds.levelOf, Slots.get?_set_self] at h2
      exact h2
    have hq := quiet_surrender (r := r) (c := r.custody) (t := t)
      (g := ⟨(Site.leave t ⟨s, r.ledger, st⟩).store, (Site.leave t ⟨s, r.ledger, st⟩).ledger,
        r.stackTable.set id (Site.leave t ⟨s, r.ledger, st⟩).stack, r.nextStack⟩)
      hm.sound ((congrArg Outlook.level hout).trans hlevel)
    exact ⟨hm.trans hq.move, hq.same.trans hout, fun h => absurd hlevel h⟩
  · exact ⟨hm, hout, fun _ => hid⟩

theorem atStack_eq {α : Type} (hst : r.stack? id = some st) (f : Site → Outcome Site α) :
    r.atStack id f s = ((f ⟨s, r.ledger, st⟩).1, r.withSite id (f ⟨s, r.ledger, st⟩).2,
      (f ⟨s, r.ledger, st⟩).2.store) := by
  have hg : r.stackTable.get? id = some st := hst
  rw [atStack, hg]
  rfl

theorem atStack_enter (t : Caller) (hr : r.Sound s) (hst : r.stack? id = some st)
    (hfull : ¬ (⟨s, r.ledger, st⟩ : Site).full = true)
    (hl : st.maxDepth = 0 → st.level.toNat + 1 < 2 ^ 32) :
    ∃ w, Site.Entered ⟨s, r.ledger, st⟩ w ∧
      r.atStack id (fun w => let (e, w) := w.enter t; (e.orRaise, w)) s =
        (.ok (), r.withSite id w, w.store) ∧
      ∀ f : Site → Outcome Site Unit, (r.withSite id w).atStack id f w.store =
        ((f w).1, r.withSite id (f w).2, (f w).2.store) := by
  obtain ⟨hok, he⟩ := Site.enter_of_not_full t hfull (hr.sites hst) hl
  have hself : (r.withSite id (Site.enter t ⟨s, r.ledger, st⟩).2).stack? id =
      some (Site.enter t ⟨s, r.ledger, st⟩).2.stack := by
    rw [stack?_withSite, if_pos rfl]
  refine ⟨_, he, ?_, fun f => ?_⟩
  · rw [atStack_eq hst]
    simp only [hok, Reported.orRaise, Reported.success]
  · rw [atStack_eq hself, withSite_withSite]
    rfl

/-- How an entry ends, and what the thread sees then. -/
structure Entry (c : Catalog) (t : Nat) (types : List TypeId) (r : Realm) (s : Store)
    (result : Except Failure Nat) (r' : Realm) (s' : Store) : Prop where
  move : Move t r s r' s'
  verdict : result.map (fun _ => ()) =
    (r.outlook s t).verdict c r.options.maxDepth s.traced types
  pinned : (r.outlook s t).level ≠ 0 → r'.custody.held? t = r.custody.held? t
  refused : ∀ f, result = .error f → r'.outlook s' t = r.outlook s t
  entered : ∀ id, result = .ok id →
    r'.custody.held? t = some id ∧ (r.outlook s t).Over c.tree types (r'.outlook s' t)

theorem Entry.after {c : Catalog} {t : Nat} {types : List TypeId} {r₁ r' : Realm} {s₁ s' : Store}
    {result : Except Failure Nat} (hq : Quiet t r s r₁ s₁)
    (he : Entry c t types r₁ s₁ result r' s') : Entry c t types r s result r' s' where
  move := hq.move.trans he.move
  verdict := by
    rw [he.verdict, hq.same, hq.move.options, hq.move.store.traced]
  pinned := by
    intro h
    rw [he.pinned (by rw [hq.same]; exact h), hq.pinned h]
  refused := fun f hf => (he.refused f hf).trans hq.same
  entered := fun id hid => by
    have h := he.entered id hid
    rw [hq.same] at h
    exact h

def concluded (t : Caller) (id : Nat) :
    Except Failure Unit × Realm × Store → Except Failure Nat × Realm × Store
  | (.error f, r, s) => (.error f, r.leave t id s)
  | (.ok (), r, s) => (.ok id, r, s)

/-- Entry on a stack that the thread has, with a way of laying what the scope is for. -/
def enterOnBy (t : Caller) (lay : Nat → Site → Outcome Site Unit) (id : Nat) (r : Realm)
    (s : Store) : Except Failure Nat × Realm × Store :=
  match r.atStack id (fun w => let (e, w) := w.enter t; (e.orRaise, w)) s with
  | (.error f, r, s) => (.error f, r, s)
  | (.ok (), r, s) => concluded t id (r.atStack id (lay r.id) s)

def enterOn (c : Catalog) (t : Caller) (types : List TypeId) (id : Nat) (r : Realm) (s : Store) :
    Except Failure Nat × Realm × Store :=
  enterOnBy t (layTypes c t types) id r s

theorem enterOnBy_at_limit (hst : r.stack? id = some st) (t : Caller)
    (lay : Nat → Site → Outcome Site Unit) (hfull : (⟨s, r.ledger, st⟩ : Site).full = true) :
    enterOnBy t lay id r s = (.error (.code .nestingTooDeep),
      r.withSite id ⟨s.refuse t st.id (.atMaximum st.level), r.ledger, st⟩,
      s.refuse t st.id (.atMaximum st.level)) := by
  rw [enterOnBy, atStack_eq hst, Site.enter_full t hfull]
  rfl

theorem enterOnBy_full (hr : r.Sound s) (hid : r.custody.held? t.thread = some id)
    (hst : r.stack? id = some st) (lay : Nat → Site → Outcome Site Unit)
    (hfull : (⟨s, r.ledger, st⟩ : Site).full = true) :
    (enterOnBy t lay id r s).1 = .error (.code .nestingTooDeep) ∧
      Quiet t.thread r s (enterOnBy t lay id r s).2.1 (enterOnBy t lay id r s).2.2 := by
  have hturn : Site.Turn ⟨s, r.ledger, st⟩ ⟨s.refuse t st.id (.atMaximum st.level), r.ledger, st⟩ :=
    .of_same (hr.sites hst) ((Store.Same.refl s).refuse t st.id _)
  rw [enterOnBy_at_limit hst t lay hfull]
  exact ⟨rfl, quiet_turn hr hid hst hturn rfl⟩

theorem enterOn_full (hr : r.Sound s) (hid : r.custody.held? t.thread = some id)
    (hst : r.stack? id = some st) (c : Catalog) (types : List TypeId)
    (hfull : (⟨s, r.ledger, st⟩ : Site).full = true) :
    Entry c t.thread types r s (enterOn c t types id r s).1 (enterOn c t types id r s).2.1
      (enterOn c t types id r s).2.2 := by
  have hold : r.outlook s t.thread = (⟨s, r.ledger, st⟩ : Site).outlook := outlook_some hid hst
  have hlimit : st.maxDepth = r.options.maxDepth := hr.limit hst
  obtain ⟨he, hq⟩ := enterOnBy_full hr hid hst (layTypes c t types) hfull
  rw [enterOn]
  refine ⟨hq.move, ?_, hq.pinned, fun _ _ => hq.same, fun _ h => by rw [he] at h; cases h⟩
  have hf := Site.full_iff.1 hfull
  simp only at hf
  rw [he, hold, Outlook.verdict, if_pos]
  · rfl
  · rw [← hlimit]
    exact hf

/-- A scope half laid is left like any other, and that undoes all of it. -/
theorem concluded_error (hr : r.Sound s) (hid : r.custody.held? t.thread = some id)
    (hst : r.stack? id = some st) {w : Site} (hturn : Site.Turn ⟨s, r.ledger, st⟩ w)
    (hleave : w.outlook.leave = r.outlook s t.thread) (hlevel : 0 < w.stack.level.toNat)
    (f : Failure) :
    let e := concluded t id (.error f, r.withSite id w, w.store)
    e.1 = .error f ∧ Quiet t.thread r s e.2.1 e.2.2 := by
  obtain ⟨hm, hout⟩ := move_turn hr hid hst hturn
  obtain ⟨hm', hout', hheld⟩ := leave_spec hm.sound (t := t) hid (by
    rw [hout]
    exact hlevel)
  rw [hout, hleave] at hout' hheld
  exact ⟨rfl, hm.trans hm', hout', fun h => (hheld h).trans hid.symm⟩

theorem concluded_spec (hr : r.Sound s) (hid : r.custody.held? t.thread = some id)
    (hst : r.stack? id = some st) (c : Catalog) (types : List TypeId)
    (hfull : ¬ (⟨s, r.ledger, st⟩ : Site).full = true) {w : Site}
    (he : Site.Entered ⟨s, r.ledger, st⟩ w) :
    let o := layTypes c t types r.id w
    let e := concluded t id (o.1, r.withSite id o.2, o.2.store)
    Entry c t.thread types r s e.1 e.2.1 e.2.2 := by
  have hold : r.outlook s t.thread = (⟨s, r.ledger, st⟩ : Site).outlook := outlook_some hid hst
  have hlimit : st.maxDepth = r.options.maxDepth := hr.limit hst
  have hnot : ¬ (r.options.maxDepth ≠ 0 ∧
      r.options.maxDepth.toNat ≤ (r.outlook s t.thread).level.toNat) := by
    rw [← hlimit, hold]
    exact fun h => hfull (Site.full_iff.2 h)
  obtain ⟨hturn, hleave, hlevel, hres, hover⟩ :=
    Site.laying_spec c t types r.id (hr.sites hst) he
  generalize layTypes c t types r.id w = o at hturn hleave hlevel hres hover ⊢
  obtain ⟨result, w₂⟩ := o
  obtain ⟨hm, hout⟩ := move_turn hr hid hst hturn
  simp only at hleave hlevel hres hover hm hout ⊢
  rw [← hold] at hleave hover hres
  have hverdict : result = (r.outlook s t.thread).verdict c r.options.maxDepth s.traced types := by
    rw [Outlook.verdict, if_neg hnot]
    exact hres
  cases result with
  | error f =>
    obtain ⟨-, hq⟩ := concluded_error hr hid hst hturn hleave (by rw [hlevel]; omega) f
    exact ⟨hq.move, hverdict, hq.pinned, fun _ _ => hq.same, fun _ h => by cases h⟩
  | ok u =>
    refine ⟨hm, hverdict, fun _ => rfl, (fun _ h => nomatch h), fun i hi => ?_⟩
    obtain rfl : id = i := Except.ok.inj hi
    refine ⟨hid, ?_⟩
    show (r.outlook s t.thread).Over c.tree types ((r.withSite id w₂).outlook w₂.store t.thread)
    rw [hout]
    exact hover rfl

theorem enterOnBy_eq (hr : r.Sound s) (hst : r.stack? id = some st) (t : Caller)
    (hfull : ¬ (⟨s, r.ledger, st⟩ : Site).full = true)
    (hl : st.maxDepth = 0 → st.level.toNat + 1 < 2 ^ 32) :
    ∃ w, Site.Entered ⟨s, r.ledger, st⟩ w ∧ ∀ lay, enterOnBy t lay id r s =
      concluded t id ((lay r.id w).1, r.withSite id (lay r.id w).2, (lay r.id w).2.store) := by
  obtain ⟨w, he, hopened, hwork⟩ := atStack_enter t hr hst hfull hl
  refine ⟨w, he, fun lay => ?_⟩
  rw [enterOnBy, hopened]
  exact congrArg (concluded t id) (hwork _)

theorem enterOn_eq (hr : r.Sound s) (hst : r.stack? id = some st) (c : Catalog) (t : Caller)
    (types : List TypeId) (hfull : ¬ (⟨s, r.ledger, st⟩ : Site).full = true)
    (hl : st.maxDepth = 0 → st.level.toNat + 1 < 2 ^ 32) :
    ∃ w, Site.Entered ⟨s, r.ledger, st⟩ w ∧ enterOn c t types id r s =
      let o := layTypes c t types r.id w
      concluded t id (o.1, r.withSite id o.2, o.2.store) := by
  obtain ⟨w, he, heq⟩ := enterOnBy_eq hr hst t hfull hl
  exact ⟨w, he, heq (layTypes c t types)⟩

theorem enterOn_spec (hr : r.Sound s) (hid : r.custody.held? t.thread = some id) (c : Catalog)
    (types : List TypeId)
    (hl : r.options.maxDepth = 0 → (r.outlook s t.thread).level.toNat + 1 < 2 ^ 32) :
    Entry c t.thread types r s (enterOn c t types id r s).1 (enterOn c t types id r s).2.1
      (enterOn c t types id r s).2.2 := by
  obtain ⟨st, hst⟩ := hr.stack_of_held hid
  by_cases hfull : (⟨s, r.ledger, st⟩ : Site).full = true
  · exact enterOn_full hr hid hst c types hfull
  · rw [outlook_some hid hst, ← hr.limit hst] at hl
    obtain ⟨w, he, heq⟩ := enterOn_eq hr hst c t types hfull hl
    rw [heq]
    exact concluded_spec hr hid hst c types hfull he

def enterBy (t : Caller) (lay : Nat → Site → Outcome Site Unit) (r : Realm) (s : Store) :
    Except Failure Nat × Realm × Store :=
  let (stack, custody, g) := r.custody.obtain r.keeper t (r.grounds s)
  let r := r.settle custody g
  match stack with
  | .error f => (.error f, r, g.store)
  | .ok id => enterOnBy t lay id r g.store

theorem enter_eq_enterBy (c : Catalog) (t : Caller) (types : List TypeId) (r : Realm) (s : Store) :
    r.enter c t types s = r.enterBy t (layTypes c t types) s := rfl

theorem enterBy_on (hr : r.Sound s) (t : Caller) :
    ∃ r₁ s₁ id, Quiet t.thread r s r₁ s₁ ∧ r₁.custody.held? t.thread = some id ∧
      ∀ lay, r.enterBy t lay s = enterOnBy t lay id r₁ s₁ := by
  obtain ⟨hq, id, hres, hid⟩ := quiet_obtain (r := r) (c := r.custody) (g := r.grounds s) hr t
  rw [settle_self] at hq
  refine ⟨_, _, id, hq, hid, fun lay => ?_⟩
  rw [enterBy]
  generalize r.custody.obtain r.keeper t (r.grounds s) = p at hres
  obtain ⟨found, c₁, g₁⟩ := p
  simp only at hres
  subst hres
  rfl

theorem enter_on (hr : r.Sound s) (c : Catalog) (t : Caller) (types : List TypeId) :
    ∃ r₁ s₁ id, Quiet t.thread r s r₁ s₁ ∧ r₁.custody.held? t.thread = some id ∧
      r.enter c t types s = enterOn c t types id r₁ s₁ := by
  obtain ⟨r₁, s₁, id, hq, hid, heq⟩ := enterBy_on hr t
  exact ⟨r₁, s₁, id, hq, hid, heq (layTypes c t types)⟩

theorem enter_spec (hr : r.Sound s) (c : Catalog) (t : Caller) (types : List TypeId)
    (hl : r.options.maxDepth = 0 → (r.outlook s t.thread).level.toNat + 1 < 2 ^ 32) :
    Entry c t.thread types r s (r.enter c t types s).1 (r.enter c t types s).2.1
      (r.enter c t types s).2.2 := by
  obtain ⟨r₁, s₁, id, hq, hid, heq⟩ := enter_on hr c t types
  rw [heq]
  exact .after hq (enterOn_spec hq.move.sound hid c types (by
    rw [hq.same, hq.move.options]
    exact hl))

end Realm

end ScopedMethods
