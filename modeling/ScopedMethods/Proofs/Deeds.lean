import Mathlib.Data.List.Count
import ScopedMethods.Proofs.Custody
import ScopedMethods.Proofs.Estate

/-!
# Deeds and the register

The deeds of a keeper balance with the register: a state that was made is on
it or was unmade, never both and never twice. Every operation of a custody
keeps this.
-/

set_option autoImplicit false

namespace ScopedMethods

namespace Custody

variable {ω : Type} {used : ω → Nat → Prop} {k : Keeper ω} {c c' : Custody}
  {w w' : ω × List Deed} {t u id : Nat} {who : Caller}

def states (c : Custody) : List Nat := c.register.map Registration.state

/-- How a custody stands to the deeds of its keeper. -/
structure Kept (used : ω → Nat → Prop) (c : Custody) (w : ω × List Deed) : Prop where
  ending : c.closed = true → c.register = []
  sound : c.closed = false → c.Sound
  balance : ∀ id, w.2.count (.unmade id) + c.states.count id = w.2.countP (Deed.makes id)
  once : ∀ id, w.2.countP (Deed.makes id) ≤ 1
  used : ∀ {t id : Nat}, Deed.made t id ∈ w.2 → used w.1 id
  owned : ∀ r ∈ c.register, Deed.made r.owner r.state ∈ w.2

/-- What an operation keeps: deeds stay done, and the custody stays open if it is. -/
structure Course (used : ω → Nat → Prop) (c : Custody) (w : ω × List Deed) (c' : Custody)
    (w' : ω × List Deed) : Prop where
  kept : Kept used c' w'
  closed : c'.closed = c.closed
  deeds : w.2 <+: w'.2

theorem Course.trans {c₁ : Custody} {w₁ : ω × List Deed} (h : Course used c w c₁ w₁)
    (h' : Course used c₁ w₁ c' w') : Course used c w c' w' :=
  ⟨h'.kept, h'.closed.trans h.closed, h.deeds.trans h'.deeds⟩

theorem kept_new (used : ω → Nat → Prop) (name : CustodyName) (w : ω) :
    Kept used (Custody.new name) (w, []) where
  ending := fun _ => rfl
  sound := fun _ => .new name
  balance := fun _ => rfl
  once := fun _ => Nat.zero_le _
  used := fun h => nomatch h
  owned := fun _ h => nomatch h

theorem Sound.mem_states (h : c.Sound) (ht : c.held? t = some id) : id ∈ c.states := by
  obtain ⟨r, hr, -, rfl⟩ := h.held.1 ht
  exact List.mem_map_of_mem hr

theorem states_unregister (hr : c'.register = (c.unregister id).register) (i : Nat) :
    c'.states.count i = if id = i then 0 else c.states.count i := by
  have hs : c'.states = c.states.filter (· ≠ id) := by
    rw [states, hr, states, List.filter_map]
    rfl
  rw [hs]
  split
  · rename_i he
    apply List.count_eq_zero.2
    simp [he]
  · rename_i he
    exact List.count_filter (decide_eq_true (Ne.symm he))

theorem made_of_makes {log : List Deed} :
    0 < log.countP (Deed.makes id) ↔ ∃ t, .made t id ∈ log := by
  rw [List.countP_pos_iff]
  constructor
  · rintro ⟨d, hd, hm⟩
    cases d with
    | made t i =>
      obtain rfl : i = id := of_decide_eq_true hm
      exact ⟨t, hd⟩
    | unmade i => cases hm
  · rintro ⟨t, ht⟩
    exact ⟨_, ht, decide_eq_true rfl⟩

namespace Kept

theorem maker_unique (h : Kept used c w) (ht : .made t id ∈ w.2) (hu : .made u id ∈ w.2) :
    t = u := by
  have hmem : ∀ {v}, Deed.made v id ∈ w.2 → Deed.made v id ∈ w.2.filter (Deed.makes id) :=
    fun hv => List.mem_filter.2 ⟨hv, decide_eq_true rfl⟩
  have ht' := hmem ht
  have hu' := hmem hu
  have hone := h.once id
  rw [List.countP_eq_length_filter] at hone
  match hl : w.2.filter (Deed.makes id) with
  | [] => simp [hl] at ht'
  | [d] =>
    rw [hl, List.mem_singleton] at ht' hu'
    exact (Deed.made.inj (ht'.trans hu'.symm)).1
  | d :: d' :: ds => simp [hl] at hone

theorem unmade_of_made (h : Kept used c w) (ht : .made t id ∈ w.2) :
    w.2.count (.unmade id) = if id ∈ c.states then 0 else 1 := by
  have hbalance := h.balance id
  have hone := h.once id
  have hpos := made_of_makes.2 ⟨t, ht⟩
  split
  · rename_i hmem
    have hcount := List.count_pos_iff.2 hmem
    omega
  · rename_i hmem
    have hcount := List.count_eq_zero.2 hmem
    omega

theorem unmade_le (h : Kept used c w) (id : Nat) : w.2.count (.unmade id) ≤ 1 := by
  have hbalance := h.balance id
  have hone := h.once id
  omega

theorem countP_makes_eq_zero (h : Kept used c w) (hf : ¬ used w.1 id) :
    w.2.countP (Deed.makes id) = 0 := by
  by_contra hne
  obtain ⟨t, ht⟩ := made_of_makes.1 (Nat.pos_of_ne_zero hne)
  exact hf (h.used ht)

/-- The state that a thread holds was made by it and is not gone. -/
theorem of_held (h : Kept used c w) (ho : c.closed = false) (ht : c.held? t = some id) :
    .made t id ∈ w.2 ∧ (∀ u, .made u id ∈ w.2 → u = t) ∧ w.2.count (.unmade id) = 0 := by
  obtain ⟨r, hr, rfl, rfl⟩ := (h.sound ho).held.1 ht
  have hmade := h.owned r hr
  refine ⟨hmade, fun u hu => h.maker_unique hu hmade, ?_⟩
  rw [h.unmade_of_made hmade]
  exact if_pos (List.mem_map_of_mem hr)

theorem gone (h : Kept used c w) (ht : c.closed = true ∨ c.held? t = none)
    (hm : .made t id ∈ w.2) : w.2.count (.unmade id) = 1 := by
  rw [h.unmade_of_made hm, if_neg]
  intro hmem
  obtain ⟨r, hr, rfl⟩ := List.mem_map.1 hmem
  cases ho : c.closed with
  | true =>
    rw [h.ending ho] at hr
    cases hr
  | false =>
    obtain rfl := h.maker_unique (h.owned r hr) hm
    have hheld := (h.sound ho).held.2 ⟨r, hr, rfl, rfl⟩
    rcases ht with ht | ht
    · rw [ho] at ht
      cases ht
    · rw [hheld] at ht
      cases ht

theorem same (h : Kept used c w) (ho : c'.closed = c.closed) (hr : c'.register = c.register)
    (hh : c.closed = false → ∀ u, c'.held? u = c.held? u) (hlog : w'.2 = w.2)
    (hu : ∀ i, used w.1 i → used w'.1 i) : Course used c w c' w' where
  closed := ho
  deeds := hlog ▸ List.prefix_refl _
  kept :=
    { ending := fun hc => hr.trans (h.ending (ho.symm.trans hc))
      sound := fun hc => (h.sound (ho.symm.trans hc)).same ho hr (hh (ho.symm.trans hc))
      balance := by
        rw [hlog, states, hr]
        exact h.balance
      once := by
        rw [hlog]
        exact h.once
      used := by
        rw [hlog]
        exact fun hm => hu _ (h.used hm)
      owned := by
        rw [hlog, hr]
        exact h.owned }

theorem drop (h : Kept used c w) (hopen : c.closed = false) (ht : c.held? t = some id)
    (ho : c'.closed = c.closed) (hr : c'.register = (c.unregister id).register)
    (hh : ∀ u, c'.held? u = if t = u then none else c.held? u)
    (hlog : w'.2 = w.2 ++ [.unmade id]) (hu : ∀ i, used w.1 i → used w'.1 i) :
    Course used c w c' w' where
  closed := ho
  deeds := by
    rw [hlog]
    exact List.prefix_append _ _
  kept :=
    { ending := fun hc => by
        rw [ho, hopen] at hc
        cases hc
      sound := fun _ => (h.sound hopen).drop ht ho hr hh
      balance := by
        intro i
        have hold := h.balance i
        have hone : c.states.count id = 1 :=
          List.count_eq_one_of_mem (h.sound hopen).distinct ((h.sound hopen).mem_states ht)
        rw [hlog, List.count_append, List.countP_append, states_unregister hr]
        by_cases hi : id = i
        · subst hi
          simp [Deed.makes] at hold ⊢
          omega
        · simpa [Deed.makes, hi] using hold
      once := by
        intro i
        rw [hlog, List.countP_append]
        exact h.once i
      used := by
        rw [hlog]
        intro v i hm
        rcases List.mem_append.1 hm with hm | hm
        · exact hu _ (h.used hm)
        · simp at hm
      owned := by
        rw [hlog, hr]
        intro r hr
        exact List.mem_append_left _ (h.owned r (List.mem_filter.1 hr).1) }

theorem add (h : Kept used c w) (hopen : c.closed = false) (ht : c.held? t = none)
    (hf : ¬ used w.1 id) (ho : c'.closed = c.closed) {nickname : String}
    (hr : c'.register = ⟨id, t, nickname⟩ :: c.register)
    (hh : ∀ u, c'.held? u = if t = u then some id else c.held? u)
    (hlog : w'.2 = w.2 ++ [.made t id]) (hu : ∀ i, used w.1 i → used w'.1 i)
    (hnow : used w'.1 id) : Course used c w c' w' where
  closed := ho
  deeds := by
    rw [hlog]
    exact List.prefix_append _ _
  kept :=
    { ending := fun hc => by
        rw [ho, hopen] at hc
        cases hc
      sound := fun _ => by
        refine (h.sound hopen).add ht ?_ ho hr hh
        intro hreg
        obtain ⟨r, hmem, rfl⟩ := registered_iff.1 hreg
        exact hf (h.used (h.owned r hmem))
      balance := by
        intro i
        have hold := h.balance i
        rw [hlog, List.count_append, List.countP_append, states, hr, List.map_cons,
          List.count_cons, ← states]
        by_cases hi : id = i
        · simp [Deed.makes, hi]
          omega
        · simpa [Deed.makes, hi] using hold
      once := by
        intro i
        have hold := h.once i
        rw [hlog, List.countP_append]
        by_cases hi : id = i
        · subst hi
          simp [Deed.makes, h.countP_makes_eq_zero hf]
        · simpa [Deed.makes, hi] using hold
      used := by
        rw [hlog]
        intro v i hm
        rcases List.mem_append.1 hm with hm | hm
        · exact hu _ (h.used hm)
        · obtain ⟨-, rfl⟩ := Deed.made.inj (List.mem_singleton.1 hm)
          exact hnow
      owned := by
        rw [hlog, hr]
        refine List.forall_mem_cons.2 ⟨by simp, fun r hr => ?_⟩
        exact List.mem_append_left _ (h.owned r hr) }

end Kept

section Operations

variable (hf : k.Fresh used) (h : Kept used c w) (ho : c.closed = false)

include hf h ho

theorem release_course (hid : c.held? who.thread = some id) (cause : ReleaseCause) :
    Course used c w (c.release k.recorded who id cause w).1
        (c.release k.recorded who id cause w).2 ∧
      (c.release k.recorded who id cause w).1.held? who.thread = none := by
  have hreg := (h.sound ho).registered_of_held hid
  have hh : ∀ u, ((c.unregister id).setContext who.thread ⟨none, c.pending who.thread⟩).held? u =
      if who.thread = u then none else c.held? u := fun _ => held?_setContext _
  simp only [release, hreg, if_true]
  refine ⟨h.drop ho hid rfl rfl hh rfl fun i hu => ?_, (hh _).trans (if_pos rfl)⟩
  exact hf.destroy who id _ i (hf.note who _ _ i hu)

theorem honor_course (hid : c.held? who.thread = some id) :
    Course used c w (c.honor k.recorded who id w).1 (c.honor k.recorded who id w).2 := by
  have hh : ∀ u, (c.setContext who.thread ⟨some id, false⟩).held? u = c.held? u :=
    held?_setContext_same hid
  have hflag : Course used c w (c.setContext who.thread ⟨some id, false⟩) w :=
    h.same rfl rfl (fun _ => hh) rfl fun _ hu => hu
  simp only [honor]
  split
  · exact hflag.trans (release_course hf hflag.kept ho ((hh _).trans hid) _).1
  · exact hflag.trans (hflag.kept.same rfl rfl (fun _ _ => rfl) rfl (hf.note who _ _))

theorem peek_course (who : Caller) :
    Course used c w (c.peek k.recorded who w).2.1 (c.peek k.recorded who w).2.2 ∧
      (c.peek k.recorded who w).1 = (c.peek k.recorded who w).2.1.held? who.thread := by
  have hrefl : Course used c w c w := ⟨h, rfl, List.prefix_refl _⟩
  simp only [peek]
  cases hid : c.held? who.thread with
  | none => exact ⟨hrefl, hid.symm⟩
  | some id =>
    simp only
    split
    · exact ⟨honor_course hf h ho hid, rfl⟩
    · exact ⟨hrefl, hid.symm⟩

theorem house_course (hn : c.held? who.thread = none) :
    Course used c w (c.house k.recorded who w).2.1 (c.house k.recorded who w).2.2 ∧
      ∀ id, (c.house k.recorded who w).1 = .ok id →
        (c.house k.recorded who w).2.1.held? who.thread = some id := by
  have hh : ∀ u, (c.setContext who.thread ⟨none, false⟩).held? u = c.held? u :=
    held?_setContext_same hn
  have hcreate := hf.create who w.1
  have hmade := @Keeper.Fresh.made _ _ _ hf who w.1
  simp only [house, Keeper.recorded]
  generalize k.create who w.1 = o at hcreate hmade
  obtain ⟨result, w₁⟩ := o
  cases result with
  | error f => exact ⟨h.same rfl rfl (fun _ => hh) rfl hcreate, fun _ hid => by cases hid⟩
  | ok id =>
    obtain ⟨hnew, hnow⟩ := hmade rfl
    have hh' : ∀ u, ((c.setContext who.thread ⟨none, false⟩).setContext who.thread
        ⟨some id, false⟩).held? u = if who.thread = u then some id else c.held? u := by
      intro u
      rw [held?_setContext]
      split
      · rfl
      · exact hh u
    refine ⟨h.add ho hn hnew rfl rfl hh' rfl (fun i hu => ?_) ?_, fun i hi => ?_⟩
    · exact hf.note who _ _ i (hcreate i hu)
    · exact hf.note who _ _ id hnow
    · cases hi
      exact (hh' _).trans (if_pos rfl)

theorem obtain_course (who : Caller) :
    Course used c w (c.obtain k.recorded who w).2.1 (c.obtain k.recorded who w).2.2 ∧
      ∀ id, (c.obtain k.recorded who w).1 = .ok id →
        (c.obtain k.recorded who w).2.1.held? who.thread = some id := by
  obtain ⟨hc, he⟩ := peek_course hf h ho who
  simp only [obtain]
  generalize c.peek k.recorded who w = p at hc he
  obtain ⟨found, c₁, w₁⟩ := p
  cases found with
  | some id => exact ⟨hc, fun i hi => he.symm.trans (congrArg some (Except.ok.inj hi))⟩
  | none =>
    obtain ⟨hc', hid⟩ := house_course hf hc.kept (hc.closed.trans ho) he.symm
    exact ⟨hc.trans hc', hid⟩

theorem surrender_course (who : Caller) :
    Course used c w (c.surrender k.recorded who w).2.1 (c.surrender k.recorded who w).2.2 := by
  simp only [surrender]
  cases hid : c.held? who.thread with
  | none => exact ⟨h, rfl, List.prefix_refl _⟩
  | some id => exact (release_course hf h ho hid _).1

end Operations

theorem requestReclaim_course (hf : k.Fresh used) (h : Kept used c w) (who : Caller) :
    Course used c w (c.requestReclaim k.recorded who w).2.1
      (c.requestReclaim k.recorded who w).2.2 := by
  obtain ⟨h1, h2, h3⟩ := flag_frame c.register c
  exact h.same h1 h2 (fun _ => h3) rfl (hf.note who _ _)

theorem noted_all (hf : k.Fresh used) (who : Caller) (event : Registration → Event)
    (rs : List Registration) (w : ω × List Deed) :
    let w' := rs.foldl (fun w r => k.recorded.note who (event r) w) w
    w'.2 = w.2 ∧ ∀ i, used w.1 i → used w'.1 i := by
  induction rs generalizing w with
  | nil => exact ⟨rfl, fun _ hu => hu⟩
  | cons r rs ih =>
    obtain ⟨h1, h2⟩ := ih (k.recorded.note who (event r) w)
    exact ⟨h1, fun i hu => h2 i (hf.note who (event r) w.1 i hu)⟩

theorem destroyed_all (hf : k.Fresh used) (who : Caller) (rs : List Registration)
    (w : ω × List Deed) :
    let w' := rs.foldl (fun w r => k.recorded.destroy who r.state w) w
    w'.2 = w.2 ++ (rs.map Registration.state).map Deed.unmade ∧
      ∀ i, used w.1 i → used w'.1 i := by
  induction rs generalizing w with
  | nil => exact ⟨(List.append_nil _).symm, fun _ hu => hu⟩
  | cons r rs ih =>
    obtain ⟨h1, h2⟩ := ih (k.recorded.destroy who r.state w)
    refine ⟨h1.trans ?_, fun i hu => h2 i (hf.destroy who r.state w.1 i hu)⟩
    exact List.append_assoc _ _ _

theorem close_kept (hf : k.Fresh used) (h : Kept used c w) (who : Caller) :
    Kept used (c.close k.recorded who w).1 (c.close k.recorded who w).2 ∧
      w.2 <+: (c.close k.recorded who w).2.2 := by
  obtain ⟨h1, h2⟩ := noted_all hf who
    (fun r => .stateDeleted c.name r.state r.owner r.nickname) c.register
    (k.recorded.note who (.custodyClosing c.name) w)
  obtain ⟨h3, h4⟩ := destroyed_all hf who c.register (c.register.foldl
    (fun w r => k.recorded.note who (.stateDeleted c.name r.state r.owner r.nickname) w)
    (k.recorded.note who (.custodyClosing c.name) w))
  have hlog : (c.close k.recorded who w).2.2 = w.2 ++ c.states.map Deed.unmade := by
    rw [h1] at h3
    exact h3
  have hnone : ∀ i, (c.states.map Deed.unmade).countP (Deed.makes i) = 0 := by
    intro i
    simp [Deed.makes]
  refine ⟨?_, hlog ▸ List.prefix_append _ _⟩
  exact
    { ending := fun _ => rfl
      sound := fun hc => nomatch hc
      balance := fun i => by
        have hinj : (c.states.map Deed.unmade).count (.unmade i) = c.states.count i :=
          List.count_map_of_injective _ Deed.unmade (fun _ _ => Deed.unmade.inj) i
        rw [hlog, List.count_append, List.countP_append, hinj, hnone]
        exact h.balance i
      once := fun i => by
        rw [hlog, List.countP_append, hnone]
        exact h.once i
      used := fun {t i} hm => by
        rw [hlog] at hm
        rcases List.mem_append.1 hm with hm | hm
        · exact h4 i (h2 i (hf.note who _ _ i (h.used hm)))
        · simp at hm
      owned := fun r hr => nomatch hr }

theorem exit_course (hf : k.Fresh used) (h : Kept used c w) (who : Caller) :
    Course used c w (c.exit k.recorded who w).1 (c.exit k.recorded who w).2 ∧
      (c.exit k.recorded who w).1.contexts.get? who.thread = none := by
  have herase : (c.contexts.erase who.thread).get? who.thread = none := by
    rw [Slots.get?_erase, if_pos rfl]
  simp only [exit]
  cases hid : c.held? who.thread with
  | none => exact ⟨h.same rfl rfl (fun _ => held?_erase_none hid) rfl fun _ hu => hu, herase⟩
  | some id =>
    refine ⟨?_, herase⟩
    cases ho : c.closed with
    | false =>
      have hreg := (h.sound ho).registered_of_held hid
      simp only [hreg, Bool.not_false, Bool.and_self, if_true]
      exact h.drop ho hid rfl rfl (fun _ => held?_erase) rfl (hf.destroy who id _)
    | true =>
      have hnil := h.ending ho
      refine h.same rfl ?_ (fun hc => by rw [ho] at hc; cases hc) rfl fun _ hu => hu
      simp [unregister, hnil]

end Custody

end ScopedMethods
