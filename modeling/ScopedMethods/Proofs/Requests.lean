import Mathlib.Data.List.Induction
import ScopedMethods.Proofs.Ownership

/-!
# Reclaim requests

The one flag of a thread stands for the history of requests: while the thread
holds a state, the flag is set if and only if someone asked since the thread's
last access. So an access destroys the state if there was such a request and
the state may go, and no request outlives the access that answers it.
-/

set_option autoImplicit false

namespace ScopedMethods

def Deed.made? : Deed → Option Nat
  | made _ id => some id
  | unmade _ => none

def Deed.live (log : List Deed) : List Nat :=
  (log.filterMap made?).filter fun id => .unmade id ∉ log

theorem Deed.mem_live {log : List Deed} {id : Nat} :
    id ∈ live log ↔ (∃ t, .made t id ∈ log) ∧ .unmade id ∉ log := by
  rw [live, List.mem_filter, List.mem_filterMap, decide_eq_true_iff]
  refine and_congr_left fun _ => ⟨?_, fun ⟨t, ht⟩ => ⟨_, ht, rfl⟩⟩
  rintro ⟨d, hd, hid⟩
  cases d with
  | made t i =>
    cases hid
    exact ⟨t, hd⟩
  | unmade i => cases hid

theorem Deed.count_made? (log : List Deed) (id : Nat) :
    (log.filterMap made?).count id = log.countP (makes id) := by
  induction log with
  | nil => rfl
  | cons d log ih =>
    cases d with
    | made t i => simp [made?, makes, List.count_cons, List.countP_cons, ih]
    | unmade i => simp [made?, makes, List.filterMap_cons, ih]

namespace Custody

variable {ω : Type} {used : ω → Nat → Prop} {k : Keeper ω} {c : Custody} {w : ω × List Deed}
  {id : Nat} {who : Caller}

theorem Kept.unmade_iff (h : Kept used c w) (id : Nat) :
    .unmade id ∈ w.2 ↔ w.2.count (.unmade id) = 1 := by
  have hle := h.unmade_le id
  rw [← List.count_pos_iff]
  omega

theorem Kept.size_eq (h : Kept used c w) (ho : c.closed = false) :
    c.size = (Deed.live w.2).length := by
  have hnodup : (Deed.live w.2).Nodup := by
    refine List.Nodup.filter _ (List.nodup_iff_count_le_one.2 fun id => ?_)
    rw [Deed.count_made?]
    exact h.once id
  have hmem : ∀ id, id ∈ c.states ↔ id ∈ Deed.live w.2 := by
    intro id
    rw [Deed.mem_live, h.unmade_iff]
    constructor
    · intro hid
      obtain ⟨r, hr, rfl⟩ := List.mem_map.1 hid
      have hmade := h.owned r hr
      refine ⟨⟨_, hmade⟩, ?_⟩
      rw [h.unmade_of_made hmade, if_pos hid]
      decide
    · rintro ⟨⟨t, ht⟩, hn⟩
      by_contra hid
      rw [h.unmade_of_made ht, if_neg hid] at hn
      exact hn rfl
  rw [size, ← List.length_map Registration.state]
  exact ((List.perm_ext_iff_of_nodup (h.sound ho).distinct hnodup).2 hmem).length_eq

theorem pending_setContext (x : TenantContext) (t u : Nat) :
    (c.setContext t x).pending u = if t = u then x.reclaim else c.pending u := by
  rw [pending, setContext, Slots.get?_set]
  split <;> rfl

theorem pending_peek (hid : (c.peek k.recorded who w).2.1.held? who.thread = some id) :
    (c.peek k.recorded who w).2.1.pending who.thread = false := by
  rw [peek] at hid ⊢
  cases hheld : c.held? who.thread with
  | none =>
    rw [hheld] at hid
    exact absurd (hheld.symm.trans hid) (by simp)
  | some i =>
    rw [hheld] at hid
    by_cases hp : c.pending who.thread = true
    · simp only [hp, if_true, honor] at hid ⊢
      by_cases hr : k.recorded.reclaimable w i = true
      · simp only [hr, if_true, release] at hid
        rw [held?_setContext, if_pos rfl] at hid
        cases hid
      · simp only [hr]
        exact (pending_setContext _ _ _).trans (if_pos rfl)
    · simp only [hp]
      exact Bool.eq_false_iff.2 hp

theorem pending_obtain (hid : (c.obtain k.recorded who w).2.1.held? who.thread = some id) :
    (c.obtain k.recorded who w).2.1.pending who.thread = false := by
  have hp := @pending_peek ω k c w id who
  rw [obtain] at hid ⊢
  generalize c.peek k.recorded who w = p at hid hp ⊢
  obtain ⟨found, c₁, w₁⟩ := p
  cases found with
  | some i => exact hp hid
  | none =>
    simp only [house] at hid ⊢
    generalize k.recorded.create who w₁ = o at hid ⊢
    obtain ⟨result, w₂⟩ := o
    cases result <;> exact (pending_setContext _ _ _).trans (if_pos rfl)

theorem peek_goes (h : Kept used c w) (ho : c.closed = false) (hid : c.held? who.thread = some id)
    (hp : c.pending who.thread = true) (hr : k.reclaimable w.1 id = true) :
    (c.peek k.recorded who w).1 = none ∧ (c.peek k.recorded who w).2.2 =
      (k.destroy who id (k.note who (.stateReleased c.name id who.thread .reclaimRequest) w.1),
        w.2 ++ [.unmade id]) := by
  have hreg : (c.setContext who.thread ⟨some id, false⟩).registered id = true :=
    (h.sound ho).registered_of_held hid
  have hr' : k.recorded.reclaimable w id = true := hr
  simp only [peek, hid, hp, if_true, honor, hr', release, hreg]
  exact ⟨(held?_setContext _).trans (if_pos rfl), rfl⟩

theorem peek_stays (hid : c.held? who.thread = some id)
    (hn : ¬ (c.pending who.thread = true ∧ k.reclaimable w.1 id = true)) :
    (c.peek k.recorded who w).1 = some id ∧ (c.peek k.recorded who w).2.2.2 = w.2 := by
  by_cases hp : c.pending who.thread = true
  · have hr : ¬ k.recorded.reclaimable w id = true := fun hr => hn ⟨hp, hr⟩
    simp only [peek, hid, hp, if_true, honor, hr]
    exact ⟨(held?_setContext _).trans (if_pos rfl), rfl⟩
  · simp only [peek, hid, hp]
    exact ⟨rfl, rfl⟩

theorem obtain_stays {c₁ : Custody} {w₁ : ω × List Deed}
    (h : c.peek k.recorded who w = (some id, c₁, w₁)) :
    c.obtain k.recorded who w = (.ok id, c₁, w₁) := by
  rw [obtain, h]

theorem obtain_anew {c₁ : Custody} {w₁ : ω × List Deed}
    (h : c.peek k.recorded who w = (none, c₁, w₁)) :
    (c.obtain k.recorded who w).1 = (k.create who w₁.1).1 ∧
      (c.obtain k.recorded who w).2.2.2 =
        w₁.2 ++ ((k.create who w₁.1).1.toOption.map (Deed.made who.thread)).toList := by
  rw [obtain, h]
  simp only [house, Keeper.recorded]
  generalize k.create who w₁.1 = o
  obtain ⟨result, w₂⟩ := o
  cases result with
  | error f => exact ⟨rfl, (List.append_nil _).symm⟩
  | ok i => exact ⟨rfl, rfl⟩

end Custody

namespace Estate

variable {ω : Type} {used : ω → Nat → Prop} {k : Keeper ω} {e : Estate (ω × List Deed)}
  {acts : List (Caller × Act ω)} {who : Caller} {act : Act ω} {t u id : Nat}

def Act.accesses : Act ω → Bool
  | obtain | peek => true
  | _ => false

/-- Someone asked for all states, and a thread has not looked for its own since. -/
def Asked (t : Nat) (acts : List (Caller × Act ω)) : Prop :=
  ∃ before who after, acts = before ++ (who, .requestReclaim) :: after ∧
    ∀ p ∈ after, ¬ (p.1.thread = t ∧ p.2.accesses = true)

theorem asked_snoc :
    Asked t (acts ++ [(who, act)]) ↔
      ¬ (who.thread = t ∧ act.accesses = true) ∧ (act = .requestReclaim ∨ Asked t acts) := by
  constructor
  · rintro ⟨before, v, after, he, hn⟩
    rcases List.eq_nil_or_concat after with rfl | ⟨rest, last, rfl⟩
    · obtain ⟨-, h⟩ := List.append_inj' he rfl
      obtain ⟨rfl, rfl⟩ := Prod.mk.inj (List.singleton_inj.1 h)
      exact ⟨fun h => absurd h.2 (by simp [Act.accesses]), Or.inl rfl⟩
    · rw [List.concat_eq_append, ← List.cons_append, ← List.append_assoc] at he
      obtain ⟨rfl, h⟩ := List.append_inj' he rfl
      obtain rfl := List.singleton_inj.1 h
      exact ⟨hn (who, act) (by simp),
        Or.inr ⟨before, v, rest, rfl, fun p hp => hn p (by simp [hp])⟩⟩
  · rintro ⟨hlast, rfl | ⟨before, v, after, rfl, hn⟩⟩
    · exact ⟨acts, who, [], rfl, fun _ h => nomatch h⟩
    · refine ⟨before, v, after ++ [(who, act)], by simp, fun p hp => ?_⟩
      rcases List.mem_append.1 hp with hp | hp
      · exact hn p hp
      · rw [List.mem_singleton.1 hp]
        exact hlast

/-- The flag of a thread that holds a state says whether someone asked since it last looked. -/
def Tracked (e : Estate (ω × List Deed)) (acts : List (Caller × Act ω)) : Prop :=
  e.custody.closed = false → ∀ t id, e.custody.held? t = some id →
    (e.custody.pending t = true ↔ Asked t acts)

theorem open_before (hf : k.Fresh used) (h : Custody.Kept used e.custody e.world)
    (hp : e.plain.Permits used act)
    (ho : (e.step k.recorded who act.recorded).2.custody.closed = false) :
    e.custody.closed = false := by
  cases act with
  | exit => exact (Custody.exit_course hf h who).1.closed.symm.trans ho
  | change f => exact ho
  | _ => exact hp

theorem held_lost (hf : k.Fresh used) (h : Custody.Kept used e.custody e.world)
    (hp : e.plain.Permits used act) (hact : act = .surrender ∨ act = .exit ∨ act = .close) :
    (e.step k.recorded who act.recorded).2.custody.held? who.thread = none := by
  rcases hact with rfl | rfl | rfl
  · simp only [Act.recorded, step, Custody.surrender]
    cases hid : e.custody.held? who.thread with
    | none => exact hid
    | some id => exact (Custody.release_course hf h hp hid _).2
  · have hnone := (Custody.exit_course hf h who).2
    exact congrArg (Option.bind · TenantContext.state) hnone
  · exact Custody.held?_erase.trans (if_pos rfl)

theorem context_kept (hf : k.Fresh used) (h : Custody.Kept used e.custody e.world)
    (hp : e.plain.Permits used act) (hn : ¬ (who.thread = u ∧ act.accesses = true))
    (hreq : act ≠ .requestReclaim)
    (hid : (e.step k.recorded who act.recorded).2.custody.held? u = some id) :
    (e.step k.recorded who act.recorded).2.custody.contexts.get? u =
      e.custody.contexts.get? u := by
  by_cases hu : who.thread = u
  · subst hu
    have hlost : ¬ (act = .surrender ∨ act = .exit ∨ act = .close) := fun hact =>
      absurd ((held_lost hf h hp hact).symm.trans hid) (by simp)
    cases act with
    | change f => rfl
    | obtain => exact absurd ⟨rfl, rfl⟩ hn
    | peek => exact absurd ⟨rfl, rfl⟩ hn
    | requestReclaim => exact absurd rfl hreq
    | _ => exact absurd (by simp) hlost
  · cases act with
    | obtain => exact Custody.get?_obtain hu
    | peek => exact Custody.get?_peek hu
    | surrender => exact Custody.get?_surrender hu
    | requestReclaim => exact absurd rfl hreq
    | exit => exact Custody.get?_exit hu
    | close => exact Custody.get?_erase_ne hu
    | change f => rfl

theorem held_before (hf : k.Fresh used) (h : Custody.Kept used e.custody e.world)
    (hp : e.plain.Permits used act) (hn : ¬ (who.thread = u ∧ act.accesses = true))
    (hid : (e.step k.recorded who act.recorded).2.custody.held? u = some id) :
    e.custody.held? u = some id := by
  by_cases hreq : act = .requestReclaim
  · subst hreq
    exact ((Custody.Sound.flagAll (h.sound hp)).2 u).symm.trans hid
  · have hctx := context_kept hf h hp hn hreq hid
    rw [Custody.held?, hctx] at hid
    exact hid

theorem tracked_new (name : CustodyName) (w : ω) :
    Tracked (Estate.new name (w, []) : Estate (ω × List Deed)) ([] : List (Caller × Act ω)) :=
  fun _ _ _ hid => nomatch hid

theorem tracked_step (hf : k.Fresh used) (h : Custody.Kept used e.custody e.world)
    (hp : e.plain.Permits used act) (ht : Tracked e acts) (who : Caller) :
    Tracked (e.step k.recorded who act.recorded).2 (acts ++ [(who, act)]) := by
  intro hopen u id hid
  rw [asked_snoc]
  by_cases hown : who.thread = u ∧ act.accesses = true
  -- An access clears the flag, whether it keeps a state or makes one.
  · obtain ⟨rfl, hacc⟩ := hown
    have hclear : (e.step k.recorded who act.recorded).2.custody.pending who.thread = false := by
      cases act with
      | obtain => exact Custody.pending_obtain hid
      | peek => exact Custody.pending_peek hid
      | _ => cases hacc
    simp [hclear, hacc]
  · have hold := held_before hf h hp hown hid
    by_cases hreq : act = .requestReclaim
    · subst hreq
      have hflag : e.custody.flagAll.pending u = true := by
        rw [Custody.pending, (h.sound hp).flagged u, hold]
        rfl
      exact iff_of_true hflag ⟨hown, Or.inl rfl⟩
    · have hctx := context_kept hf h hp hown hreq hid
      rw [Custody.pending, hctx]
      exact (ht (open_before hf h hp hopen) u id hold).trans
        ⟨fun ha => ⟨hown, Or.inr ha⟩, fun ha => ha.2.resolve_left hreq⟩

theorem tracked_record (hf : k.Fresh used) {start : Estate (ω × List Deed)}
    {first : List (Caller × Act ω)} (h : Custody.Kept used start.custody start.world)
    (ht : Tracked start first) (hl : start.plain.Lawful used k acts) :
    Tracked (start.record k acts) (first ++ acts) := by
  induction acts generalizing start first with
  | nil =>
    rw [List.append_nil]
    exact ht
  | cons p acts ih =>
    obtain ⟨h₁, -⟩ := step_kept hf h hl.1 p.1
    have h₂ := ih h₁ (tracked_step hf h hl.1 ht p.1) (by rw [plain_step]; exact hl.2)
    rw [List.append_assoc] at h₂
    exact h₂

theorem held_since (hf : k.Fresh used) (h : Custody.Kept used e.custody e.world)
    (hl : e.plain.Lawful used k acts)
    (hn : ∀ p ∈ acts, ¬ (p.1.thread = u ∧ p.2.accesses = true))
    (hid : (e.record k acts).custody.held? u = some id) : e.custody.held? u = some id := by
  induction acts generalizing e with
  | nil => exact hid
  | cons p acts ih =>
    obtain ⟨hp, hrest⟩ := List.forall_mem_cons.1 hn
    obtain ⟨h₁, -⟩ := step_kept hf h hl.1 p.1
    exact held_before hf h hl.1 hp (ih h₁ (by rw [plain_step]; exact hl.2) hrest hid)

/-- An access that destroys the state a thread holds. Looking finds none then; a thread that
wants a state is given one that was never made before, unless it cannot be made. -/
structure Replaced (k : Keeper ω) (e : Estate (ω × List Deed)) (who : Caller) (act : Act ω)
    (id : Nat) (o : Answer × Estate (ω × List Deed)) : Prop where
  deeds : o.2.world.2 =
    e.world.2 ++ .unmade id :: (o.1.handed.map (Deed.made who.thread)).toList
  looked : act = .peek → o.1 = .found none
  given : act = .obtain → o.1 = .state (k.create who (k.destroy who id
    (k.note who (.stateReleased e.custody.name id who.thread .reclaimRequest) e.world.1))).1
  fresh : ∀ new ∈ o.1.handed, ∀ u, .made u new ∉ e.world.2

/-- An access that does nothing to the state a thread holds, and hands it out. -/
structure Found (e : Estate (ω × List Deed)) (id : Nat) (o : Answer × Estate (ω × List Deed)) :
    Prop where
  deeds : o.2.world.2 = e.world.2
  handed : o.1.handed = some id

theorem replaced_of_pending (hf : k.Fresh used) (h : Custody.Kept used e.custody e.world)
    (ho : e.custody.closed = false) (hacc : act.accesses = true)
    (hid : e.custody.held? who.thread = some id) (hp : e.custody.pending who.thread = true)
    (hr : k.reclaimable e.world.1 id = true) :
    Replaced k e who act id (e.step k.recorded who act.recorded) := by
  obtain ⟨hnone, hworld⟩ := Custody.peek_goes h ho hid hp hr
  have hkept := (Custody.peek_course hf h ho who).1.kept
  generalize hpeek : e.custody.peek k.recorded who e.world = o at hnone hworld hkept
  obtain ⟨found, c₁, w₁⟩ := o
  simp only at hnone hworld hkept
  subst hnone hworld
  cases act with
  | peek =>
    simp only [Act.recorded, step, hpeek]
    refine ⟨rfl, fun _ => rfl, fun hact => ?_, fun new hnew => ?_⟩
    · cases hact
    · cases hnew
  | obtain =>
    obtain ⟨hanswer, hdeeds⟩ := Custody.obtain_anew hpeek
    have hmade := @Keeper.Fresh.made _ _ _ hf who (k.destroy who id
      (k.note who (.stateReleased e.custody.name id who.thread .reclaimRequest) e.world.1))
    simp only [Act.recorded, step]
    generalize e.custody.obtain k.recorded who e.world = o at hanswer hdeeds ⊢
    obtain ⟨result, c₂, w₂⟩ := o
    simp only at hanswer hdeeds ⊢
    subst hanswer
    refine ⟨?_, fun hact => ?_, fun _ => rfl, fun new hnew u hu => ?_⟩
    · rw [hdeeds, List.append_assoc]
      generalize (k.create who _).1 = result
      cases result <;> rfl
    · cases hact
    · generalize hres : (k.create who _).1 = result at hnew
      cases result with
      | error f => cases hnew
      | ok i =>
        cases hnew
        exact (hmade hres).1 (hkept.used (List.mem_append_left _ hu))
  | _ => cases hacc

theorem found_of_not_pending (hacc : act.accesses = true)
    (hid : e.custody.held? who.thread = some id)
    (hn : ¬ (e.custody.pending who.thread = true ∧ k.reclaimable e.world.1 id = true)) :
    Found e id (e.step k.recorded who act.recorded) := by
  obtain ⟨hsome, hdeeds⟩ := Custody.peek_stays hid hn
  generalize hpeek : e.custody.peek k.recorded who e.world = o at hsome hdeeds
  obtain ⟨found, c₁, w₁⟩ := o
  simp only at hsome hdeeds
  subst hsome
  cases act with
  | peek =>
    simp only [Act.recorded, step, hpeek]
    exact ⟨hdeeds, rfl⟩
  | obtain =>
    simp only [Act.recorded, step, Custody.obtain_stays hpeek]
    exact ⟨hdeeds, rfl⟩
  | _ => cases hacc

/-- What a thread that holds a state is to find, by the history of the custody. -/
def Due (k : Keeper ω) (e : Estate (ω × List Deed)) (t id : Nat) (acts : List (Caller × Act ω)) :
    Prop :=
  Asked t acts ∧ k.reclaimable e.world.1 id = true

theorem not_asked {first rest : List (Caller × Act ω)} {v : Caller} {look : Act ω}
    (hv : v.thread = t) (hlook : look.accesses = true) (hn : ∀ p ∈ rest, p.2 ≠ .requestReclaim) :
    ¬ Asked t (first ++ (v, look) :: rest) := by
  induction rest using List.reverseRecOn with
  | nil => exact fun ha => (asked_snoc.1 ha).1 ⟨hv, hlook⟩
  | append_singleton rest p ih =>
    intro ha
    rw [← List.cons_append, ← List.append_assoc] at ha
    rcases (asked_snoc.1 ha).2 with hp | ha
    · exact hn p (by simp) hp
    · exact ih (fun q hq => hn q (by simp [hq])) ha

/-- An access destroys the state that a thread holds if and only if someone asked since the
thread's last access and the state may go. It was this very state that the request was aimed
at; an access answers all requests before it, so that later ones find nothing to answer unless
someone asks again. A request tells how many states there are. -/
theorem requests_answered (hf : k.Fresh used) (name : CustodyName) (w : ω)
    (acts : List (Caller × Act ω)) (hl : (Estate.new name w).Lawful used k acts) :
    let start : Estate (ω × List Deed) := Estate.new name (w, [])
    (∀ before who (act : Act ω) after, acts = before ++ (who, act) :: after →
      act.accesses = true →
      let e := start.record k before
      let o := e.step k.recorded who act.recorded
      ∀ id, e.custody.held? who.thread = some id →
        .unmade id ∉ e.world.2 ∧
        (.unmade id ∈ o.2.world.2 ↔ Due k e who.thread id before) ∧
        (Due k e who.thread id before → Replaced k e who act id o ∧
          ∃ first v rest, before = first ++ (v, .requestReclaim) :: rest ∧
            (start.record k first).custody.held? who.thread = some id) ∧
        (¬ Due k e who.thread id before → Found e id o) ∧
        ∀ first v look rest, before = first ++ (v, look) :: rest → v.thread = who.thread →
          look.accesses = true → (∀ p ∈ rest, p.2 ≠ .requestReclaim) → Found e id o) ∧
    ∀ before who after, acts = before ++ (who, .requestReclaim) :: after →
      let e := start.record k before
      (e.step k.recorded who .requestReclaim).1 = .asked (Deed.live e.world.2).length := by
  intro start
  have h₀ : Custody.Kept used start.custody start.world := Custody.kept_new used name w
  constructor
  · rintro before who act after rfl hacc e o id hid
    obtain ⟨hp, h, -, -⟩ := record_split hf h₀ hl
    have ho : e.custody.closed = false := by
      cases act with
      | obtain => exact hp
      | peek => exact hp
      | _ => cases hacc
    have hbefore := (lawful_append.1 hl).1
    have htracked := tracked_record hf h₀ (tracked_new name w) hbefore ho who.thread id hid
    have hintact : .unmade id ∉ e.world.2 := by
      rw [← List.count_eq_zero]
      exact (h.of_held ho hid).2.2
    have hreplaced : Due k e who.thread id before → Replaced k e who act id o := fun hd =>
      replaced_of_pending hf h ho hacc hid (htracked.2 hd.1) hd.2
    have hfound : ¬ Due k e who.thread id before → Found e id o := fun hd =>
      found_of_not_pending hacc hid fun hpr => hd ⟨htracked.1 hpr.1, hpr.2⟩
    refine ⟨hintact, ⟨fun hgone => ?_, fun hd => ?_⟩, fun hd => ⟨hreplaced hd, ?_⟩, hfound, ?_⟩
    · by_contra hd
      rw [(hfound hd).deeds] at hgone
      exact hintact hgone
    · rw [(hreplaced hd).deeds]
      simp
    · obtain ⟨⟨first, v, rest, rfl, hn⟩, -⟩ := hd
      obtain ⟨hreq, hfirst, hrest, hrun⟩ := record_split hf h₀ hbefore
      refine ⟨first, v, rest, rfl, ?_⟩
      have hk := (step_kept hf hfirst hreq v).1
      rw [← record_snoc] at hk
      rw [show e = _ from hrun] at hid
      have hheld := held_since hf hk hrest hn hid
      rw [record_snoc] at hheld
      exact held_before hf hfirst hreq (fun ha => absurd ha.2 (by simp [Act.accesses])) hheld
    · rintro first v look rest rfl hv hlook hn
      exact hfound fun hd => not_asked hv hlook hn hd.1
  · rintro before who after rfl e
    obtain ⟨hp, h, -, -⟩ := record_split hf h₀ hl
    exact congrArg Answer.asked (h.size_eq hp)

def besieged : List (Caller × Act Lodge) :=
  [(⟨0, ""⟩, .obtain), (⟨0, ""⟩, .obtain), (⟨0, ""⟩, .change fun l => l.change 0 (some true) none),
   (⟨1, ""⟩, .requestReclaim), (⟨1, ""⟩, .requestReclaim), (⟨0, ""⟩, .peek),
   (⟨0, ""⟩, .change fun l => l.change 0 (some false) none), (⟨0, ""⟩, .peek),
   (⟨1, ""⟩, .requestReclaim), (⟨0, ""⟩, .surrender), (⟨0, ""⟩, .obtain), (⟨0, ""⟩, .peek),
   (⟨1, ""⟩, .requestReclaim), (⟨0, ""⟩, .obtain)]

theorem requests_besieged :
    let start : Estate (Lodge × List Deed) := Estate.new lodging.custody.name (lodging.world, [])
    let k := Lodge.keeper ⟨"", true⟩
    let kept := start.record k (besieged.take 7)
    let asked := start.record k (besieged.take 13)
    Found kept 0 (kept.step k.recorded ⟨0, ""⟩ .peek) ∧
      (Replaced k asked ⟨0, ""⟩ .obtain 1 (asked.step k.recorded ⟨0, ""⟩ .obtain) ∧
        (asked.step k.recorded ⟨0, ""⟩ .obtain).1.handed = some 2) ∧
      ((start.record k (besieged.take 8)).step k.recorded ⟨1, ""⟩ .requestReclaim).1 =
        .asked 1 := by
  intro start k kept asked
  have hlawful : lodging.Lawful (fun l id => id < l.nextTenant) k besieged := by
    have hchange : ∀ b (l : Lodge) i, i < l.nextTenant → i < (l.change 0 b none).nextTenant := by
      intro b l i hi
      rw [Lodge.change]
      cases l.tenants.get? 0 <;> exact hi
    refine ⟨rfl, rfl, hchange _, ?_, ?_, ?_, hchange _, ?_, ?_, ?_, ?_, ?_, ?_, ?_, trivial⟩
    all_goals
      show Custody.closed _ = false
      decide +kernel
  obtain ⟨haccess, hrequest⟩ := requests_answered (Lodge.fresh ⟨"", true⟩) lodging.custody.name
    lodging.world besieged hlawful
  obtain ⟨-, -, -, -, hspent⟩ := haccess (besieged.take 7) ⟨0, ""⟩ .peek (besieged.drop 8) rfl rfl 0
    (by decide +kernel)
  obtain ⟨-, -, hgone, -, -⟩ := haccess (besieged.take 13) ⟨0, ""⟩ .obtain [] rfl rfl 1
    (by decide +kernel)
  have hdue : Due k asked 0 1 (besieged.take 13) :=
    ⟨⟨besieged.take 12, ⟨1, ""⟩, [], rfl, fun _ h => nomatch h⟩, by decide +kernel⟩
  refine ⟨?_, ⟨(hgone hdue).1, by decide +kernel⟩, ?_⟩
  · refine hspent (besieged.take 5) ⟨0, ""⟩ .peek _ rfl rfl rfl fun p hp => ?_
    obtain rfl := List.mem_singleton.1 hp
    exact fun h => nomatch h
  · have hlive : Deed.live (start.record k (besieged.take 8)).world.2 = [0] := by decide +kernel
    rw [hrequest (besieged.take 8) ⟨1, ""⟩ (besieged.drop 9) rfl, hlive, List.length_singleton]

end Estate

end ScopedMethods
