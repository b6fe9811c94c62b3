import ScopedMethods.Proofs.Deeds

/-!
# Ownership of states

Whatever the order of operations, each state goes exactly once, none is handed
out that is gone or another thread's, and the register is what threads hold.
-/

set_option autoImplicit false

namespace ScopedMethods

namespace Custody

variable {ω : Type} {c : Custody} {t u id : Nat} {who : Caller}

theorem Sound.flagged (h : c.Sound) (u : Nat) :
    c.flagAll.contexts.get? u =
      if (c.held? u).isSome then some ⟨c.held? u, true⟩ else c.contexts.get? u := by
  have hfold : ∀ (rs : List Registration) (c : Custody),
      (rs.foldl (fun c r => c.setContext r.owner ⟨c.held? r.owner, true⟩) c).contexts.get? u =
        if u ∈ rs.map Registration.owner then some ⟨c.held? u, true⟩ else c.contexts.get? u := by
    intro rs
    induction rs with
    | nil => exact fun _ => rfl
    | cons r rs ih =>
      intro c
      have hheld : (c.setContext r.owner ⟨c.held? r.owner, true⟩).held? u = c.held? u :=
        held?_setContext_same rfl u
      rw [List.foldl_cons, ih, hheld, setContext, Slots.get?_set, List.map_cons]
      by_cases he : r.owner = u
      · simp [he]
      · simp [he, Ne.symm he]
  rw [Custody.flagAll, hfold]
  by_cases hu : u ∈ c.register.map Registration.owner
  · rw [if_pos hu, if_pos (Option.isSome_iff_exists.2 (h.mem_owners.1 hu))]
  · rw [if_neg hu, if_neg fun hs => hu (h.mem_owners.2 (Option.isSome_iff_exists.1 hs))]

/-- The register of an open custody: what threads hold, one state each, under the thread
whose context has the state and the flag that a request sets. -/
structure Tidy (c : Custody) : Prop where
  held : ∀ t id, c.held? t = some id ↔ ∃ r ∈ c.register, r.owner = t ∧ r.state = id
  owners : (c.register.map Registration.owner).Nodup
  contexts : ∀ r ∈ c.register, ∃ flag, c.contexts.get? r.owner = some ⟨some r.state, flag⟩
  flagged : ∀ u, c.flagAll.contexts.get? u =
    if (c.held? u).isSome then some ⟨c.held? u, true⟩ else c.contexts.get? u
  size : c.size = (c.register.map Registration.owner).length

theorem context_of_held (ht : c.held? t = some id) :
    ∃ b, c.contexts.get? t = some ⟨some id, b⟩ := by
  obtain ⟨⟨state, b⟩, hx, hs⟩ := Option.bind_eq_some_iff.1 ht
  obtain rfl : state = some id := hs
  exact ⟨b, hx⟩

theorem Sound.tidy (h : c.Sound) : c.Tidy where
  held := fun _ _ => h.held
  owners := h.owners_nodup
  contexts := fun r hr => context_of_held (h.held.2 ⟨r, hr, rfl, rfl⟩)
  flagged := h.flagged
  size := (List.length_map _).symm

section Absent

variable {k : Keeper ω} {w : ω}

theorem get?_setContext_ne (h : t ≠ u) (x : TenantContext) :
    (c.setContext t x).contexts.get? u = c.contexts.get? u := by
  rw [setContext, Slots.get?_set, if_neg h]

theorem get?_release (h : who.thread ≠ u) (cause : ReleaseCause) :
    (c.release k who id cause w).1.contexts.get? u = c.contexts.get? u :=
  get?_setContext_ne (c := c.unregister id) h _

theorem get?_peek (h : who.thread ≠ u) :
    (c.peek k who w).2.1.contexts.get? u = c.contexts.get? u := by
  simp only [peek]
  cases c.held? who.thread with
  | none => rfl
  | some id =>
    simp only
    split
    · simp only [honor]
      split
      · rw [get?_release h, get?_setContext_ne h]
      · exact get?_setContext_ne h _
    · rfl

theorem get?_obtain (h : who.thread ≠ u) :
    (c.obtain k who w).2.1.contexts.get? u = c.contexts.get? u := by
  have hp := get?_peek (c := c) (k := k) (w := w) h
  simp only [obtain]
  generalize c.peek k who w = p at hp
  obtain ⟨found, c₁, w₁⟩ := p
  cases found with
  | some id => exact hp
  | none =>
    simp only [house]
    generalize k.create who w₁ = o
    obtain ⟨result, w₂⟩ := o
    cases result with
    | error f => exact (get?_setContext_ne h _).trans hp
    | ok id => exact (get?_setContext_ne h _).trans ((get?_setContext_ne h _).trans hp)

theorem get?_surrender (h : who.thread ≠ u) :
    (c.surrender k who w).2.1.contexts.get? u = c.contexts.get? u := by
  simp only [surrender]
  cases c.held? who.thread with
  | none => rfl
  | some id => exact get?_release h _

theorem get?_erase_ne (h : who.thread ≠ u) :
    (c.contexts.erase who.thread).get? u = c.contexts.get? u := by
  rw [Slots.get?_erase, if_neg h]

theorem get?_exit (h : who.thread ≠ u) :
    (c.exit k who w).1.contexts.get? u = c.contexts.get? u := by
  simp only [exit]
  cases c.held? who.thread <;> exact get?_erase_ne h

end Absent

end Custody

namespace Estate

variable {ω : Type} {used : ω → Nat → Prop} {k : Keeper ω} {e : Estate (ω × List Deed)}
  {acts : List (Caller × Act ω)} {who : Caller} {act : Act ω}

/-- Once the custody is closed threads only end, and the world forgets no number. -/
def Permits (used : ω → Nat → Prop) (e : Estate ω) : Act ω → Prop
  | .exit => True
  | .change f => ∀ w i, used w i → used (f w) i
  | _ => e.custody.closed = false

def Lawful (used : ω → Nat → Prop) (k : Keeper ω) : Estate ω → List (Caller × Act ω) → Prop
  | _, [] => True
  | e, p :: acts => e.Permits used p.2 ∧ Lawful used k (e.step k p.1 p.2).2 acts

def record (k : Keeper ω) (e : Estate (ω × List Deed)) (acts : List (Caller × Act ω)) :
    Estate (ω × List Deed) :=
  acts.foldl (fun e p => (e.step k.recorded p.1 p.2.recorded).2) e

theorem record_append (k : Keeper ω) (e : Estate (ω × List Deed))
    (acts rest : List (Caller × Act ω)) :
    e.record k (acts ++ rest) = (e.record k acts).record k rest := by
  simp [record]

theorem plain_step (k : Keeper ω) (e : Estate (ω × List Deed)) (who : Caller) (act : Act ω) :
    (e.step k.recorded who act.recorded).2.plain = (e.plain.step k who act).2 :=
  congrArg Prod.snd (step_recorded k e who act)

theorem plain_record (k : Keeper ω) (e : Estate (ω × List Deed)) (acts : List (Caller × Act ω)) :
    (e.record k acts).plain = e.plain.run k acts := by
  induction acts generalizing e with
  | nil => rfl
  | cons p acts ih =>
    show ((e.step k.recorded p.1 p.2.recorded).2.record k acts).plain = _
    rw [ih, plain_step]
    rfl

theorem step_kept (hf : k.Fresh used) (h : Custody.Kept used e.custody e.world)
    (hp : e.plain.Permits used act) (who : Caller) :
    let e' := (e.step k.recorded who act.recorded).2
    Custody.Kept used e'.custody e'.world ∧ e.world.2 <+: e'.world.2 := by
  have hof : ∀ {c w}, Custody.Course used e.custody e.world c w →
      Custody.Kept used c w ∧ e.world.2 <+: w.2 := fun hc => ⟨hc.kept, hc.deeds⟩
  cases act with
  | obtain => exact hof (Custody.obtain_course hf h hp who).1
  | peek => exact hof (Custody.peek_course hf h hp who).1
  | surrender => exact hof (Custody.surrender_course hf h hp who)
  | requestReclaim => exact hof (Custody.requestReclaim_course hf h who)
  | exit => exact hof (Custody.exit_course hf h who).1
  | close => exact Custody.close_kept hf h who
  | change f => exact hof (h.same rfl rfl (fun _ _ => rfl) rfl (hp e.world.1))

theorem record_kept (hf : k.Fresh used) (h : Custody.Kept used e.custody e.world)
    (hl : e.plain.Lawful used k acts) :
    Custody.Kept used (e.record k acts).custody (e.record k acts).world ∧
      e.world.2 <+: (e.record k acts).world.2 := by
  induction acts generalizing e with
  | nil => exact ⟨h, List.prefix_refl _⟩
  | cons p acts ih =>
    obtain ⟨h1, h2⟩ := step_kept hf h hl.1 p.1
    obtain ⟨h3, h4⟩ := ih h1 (by rw [plain_step]; exact hl.2)
    exact ⟨h3, h2.trans h4⟩

theorem lawful_append {e : Estate ω} {acts rest : List (Caller × Act ω)} :
    e.Lawful used k (acts ++ rest) ↔ e.Lawful used k acts ∧ (e.run k acts).Lawful used k rest := by
  induction acts generalizing e with
  | nil => simp [Lawful, run]
  | cons p acts ih =>
    show _ ∧ Lawful used k _ (acts ++ rest) ↔ (_ ∧ _) ∧ _
    rw [ih, and_assoc]
    rfl

/-- What is handed out is a state of the calling thread, and is not gone. -/
theorem handed_out (hf : k.Fresh used) (h : Custody.Kept used e.custody e.world)
    (ho : e.custody.closed = false) {id : Nat}
    (hid : (e.step k.recorded who act.recorded).1.handed = some id) :
    let e' := (e.step k.recorded who act.recorded).2
    .made who.thread id ∈ e'.world.2 ∧ (∀ u, .made u id ∈ e'.world.2 → u = who.thread) ∧
      e'.world.2.count (.unmade id) = 0 := by
  cases act with
  | obtain =>
    obtain ⟨hc, hheld⟩ := Custody.obtain_course hf h ho who
    refine hc.kept.of_held (hc.closed.trans ho) (hheld id ?_)
    simp only [Act.recorded, step] at hid
    cases hr : (e.custody.obtain k.recorded who e.world).1 with
    | error f =>
      rw [hr] at hid
      cases hid
    | ok i =>
      rw [hr] at hid
      exact congrArg Except.ok (Option.some.inj hid)
  | peek =>
    obtain ⟨hc, hheld⟩ := Custody.peek_course hf h ho who
    exact hc.kept.of_held (hc.closed.trans ho) (hheld.symm.trans hid)
  | _ => cases hid

theorem ended (hf : k.Fresh used) (h : Custody.Kept used e.custody e.world) {t : Nat}
    (hend : act = .close ∨ act = .exit ∧ who.thread = t) :
    let c := (e.step k.recorded who act.recorded).2.custody
    c.closed = true ∨ c.held? t = none := by
  rcases hend with rfl | ⟨rfl, rfl⟩
  · exact Or.inl rfl
  · refine Or.inr ?_
    have hnone := (Custody.exit_course hf h who).2
    rw [Custody.held?]
    exact congrArg (Option.bind · TenantContext.state) hnone

theorem absent_step (h : Custody.Kept used e.custody e.world) (hp : e.plain.Permits used act)
    {u : Nat} (hu : who.thread ≠ u) (hnone : e.custody.contexts.get? u = none) :
    (e.step k.recorded who act.recorded).2.custody.contexts.get? u = none := by
  cases act with
  | obtain => exact (Custody.get?_obtain hu).trans hnone
  | peek => exact (Custody.get?_peek hu).trans hnone
  | surrender => exact (Custody.get?_surrender hu).trans hnone
  | requestReclaim =>
    refine ((h.sound hp).flagged u).trans ?_
    rw [Custody.held?, hnone]
    rfl
  | exit => exact (Custody.get?_exit hu).trans hnone
  | close => exact (Custody.get?_erase_ne hu).trans hnone
  | change f => exact hnone

theorem absent_record (hf : k.Fresh used) (h : Custody.Kept used e.custody e.world)
    (hl : e.plain.Lawful used k acts) {u : Nat} (hu : ∀ p ∈ acts, p.1.thread ≠ u)
    (hnone : e.custody.contexts.get? u = none) :
    (e.record k acts).custody.contexts.get? u = none := by
  induction acts generalizing e with
  | nil => exact hnone
  | cons p acts ih =>
    obtain ⟨hp, hrest⟩ := List.forall_mem_cons.1 hu
    obtain ⟨h₁, -⟩ := step_kept hf h hl.1 p.1
    exact ih h₁ (by rw [plain_step]; exact hl.2) hrest (absent_step h hl.1 hp hnone)

theorem record_snoc (k : Keeper ω) (e : Estate (ω × List Deed)) (acts : List (Caller × Act ω))
    (who : Caller) (act : Act ω) :
    e.record k (acts ++ [(who, act)]) = ((e.record k acts).step k.recorded who act.recorded).2 := by
  rw [record_append]
  rfl

section Moment

variable {before after : List (Caller × Act ω)} (hf : k.Fresh used)
  (h : Custody.Kept used e.custody e.world)
  (hl : e.plain.Lawful used k (before ++ (who, act) :: after))

include hf h hl

theorem record_split :
    (e.record k before).plain.Permits used act ∧
      Custody.Kept used (e.record k before).custody (e.record k before).world ∧
      (e.record k (before ++ [(who, act)])).plain.Lawful used k after ∧
      e.record k (before ++ (who, act) :: after) =
        (e.record k (before ++ [(who, act)])).record k after := by
  obtain ⟨hbefore, hact, hafter⟩ := lawful_append.1 hl
  rw [← plain_record] at hact hafter
  refine ⟨hact, (record_kept hf h hbefore).1, ?_, ?_⟩
  · rw [record_snoc, plain_step]
    exact hafter
  · rw [← record_append, List.append_assoc, List.singleton_append]

/-- What a thread made is gone once the thread ended or the custody closed, and for good. -/
theorem gone_for_good {t id : Nat} (hmade : .made t id ∈ (e.record k before).world.2)
    (hend : act = .close ∨ act = .exit ∧ who.thread = t) :
    (e.record k (before ++ [(who, act)])).world.2.count (.unmade id) = 1 ∧
      (e.record k (before ++ (who, act) :: after)).world.2.count (.unmade id) = 1 := by
  obtain ⟨hp, hb, hafter, hrun⟩ := record_split hf h hl
  obtain ⟨h₁, hdeeds⟩ := step_kept hf hb hp who
  have hgone := h₁.gone (ended hf hb hend) (hdeeds.subset hmade)
  rw [← record_snoc] at h₁ hgone
  obtain ⟨h₂, hlater⟩ := record_kept hf h₁ hafter
  rw [← hrun] at h₂ hlater
  refine ⟨hgone, le_antisymm (h₂.unmade_le id) ?_⟩
  rw [← hgone]
  exact hlater.sublist.count_le _

theorem absent_for_good (hact : act = .exit) (hothers : ∀ p ∈ after, p.1.thread ≠ who.thread) :
    (e.record k (before ++ (who, act) :: after)).custody.contexts.get? who.thread = none := by
  obtain ⟨hp, hb, hafter, hrun⟩ := record_split hf h hl
  obtain ⟨h₁, -⟩ := step_kept hf hb hp who
  subst hact
  have hnone := (Custody.exit_course hf hb who).2
  rw [hrun]
  exact absent_record hf (by rw [record_snoc]; exact h₁) hafter hothers
    (by rw [record_snoc]; exact hnone)

end Moment

/-- Each state that is ever made is unmade once: at the latest when its maker ends or the
custody closes, and never again. A thread that ended has no context. What is handed out is
the caller's own and still there, and while the custody is open its register is tidy. -/
theorem states_owned (hf : k.Fresh used) (name : CustodyName) (w : ω)
    (acts : List (Caller × Act ω)) (hl : (Estate.new name w).Lawful used k acts) :
    let start : Estate (ω × List Deed) := Estate.new name (w, [])
    let e := start.record k acts
    e.plain = (Estate.new name w).run k acts ∧
    (∀ id, e.world.2.countP (Deed.makes id) ≤ 1 ∧ e.world.2.count (.unmade id) ≤ 1) ∧
    (∀ before who act after, acts = before ++ (who, act) :: after →
      ∀ t id, .made t id ∈ (start.record k before).world.2 →
        act = .close ∨ act = .exit ∧ who.thread = t →
        (start.record k (before ++ [(who, act)])).world.2.count (.unmade id) = 1 ∧
          e.world.2.count (.unmade id) = 1) ∧
    (∀ before who after, acts = before ++ (who, .exit) :: after →
      (∀ p ∈ after, p.1.thread ≠ who.thread) → e.custody.contexts.get? who.thread = none) ∧
    (e.custody.closed = false →
      (∀ who (act : Act ω) id, (e.step k.recorded who act.recorded).1.handed = some id →
        let e' := (e.step k.recorded who act.recorded).2
        .made who.thread id ∈ e'.world.2 ∧ (∀ u, .made u id ∈ e'.world.2 → u = who.thread) ∧
          e'.world.2.count (.unmade id) = 0) ∧
      (∀ t id, e.custody.held? t = some id →
        .made t id ∈ e.world.2 ∧ e.world.2.count (.unmade id) = 0) ∧
      e.custody.Tidy) := by
  intro start e
  have h₀ : Custody.Kept used start.custody start.world := Custody.kept_new used name w
  have h : Custody.Kept used e.custody e.world := (record_kept hf h₀ hl).1
  refine ⟨plain_record k start acts, fun id => ⟨h.once id, h.unmade_le id⟩, ?_, ?_, fun ho => ?_⟩
  · rintro before who act after rfl t id hmade hend
    exact gone_for_good hf h₀ hl hmade hend
  · rintro before who after rfl hothers
    exact absent_for_good hf h₀ hl rfl hothers
  · refine ⟨fun who act id => handed_out hf h ho, fun t id ht => ?_, (h.sound ho).tidy⟩
    obtain ⟨hm, -, hz⟩ := h.of_held ho ht
    exact ⟨hm, hz⟩

def lodging : Estate Lodge :=
  Estate.new ⟨"tenants", 0, "Tenant"⟩ ⟨Store.new none, [], 0, [], 1⟩

def lodged : List (Caller × Act Lodge) :=
  [(⟨0, ""⟩, .obtain), (⟨0, ""⟩, .obtain), (⟨1, ""⟩, .obtain), (⟨1, ""⟩, .requestReclaim),
   (⟨0, ""⟩, .peek), (⟨0, ""⟩, .obtain), (⟨1, ""⟩, .exit), (⟨0, ""⟩, .close)]

theorem states_lodged :
    let e := (Estate.new lodging.custody.name (lodging.world, [])).record
      (Lodge.keeper ⟨"", false⟩) lodged
    e.world.2 = [.made 0 0, .made 1 1, .unmade 0, .made 0 2, .unmade 1, .unmade 2] ∧
      e.world.2.count (.unmade 1) = 1 ∧ e.world.2.count (.unmade 2) = 1 := by
  have hlawful : lodging.Lawful (fun l id => id < l.nextTenant) (Lodge.keeper ⟨"", false⟩)
      lodged := by
    exact ⟨rfl, rfl, rfl, rfl, rfl, rfl, trivial, rfl, trivial⟩
  obtain ⟨-, -, hends, -⟩ := states_owned (Lodge.fresh ⟨"", false⟩) lodging.custody.name
    lodging.world lodged hlawful
  refine ⟨by decide +kernel, ?_, ?_⟩
  · exact (hends (lodged.take 6) ⟨1, ""⟩ .exit [(⟨0, ""⟩, .close)] rfl 1 1 (by decide +kernel)
      (Or.inr ⟨rfl, rfl⟩)).2
  · exact (hends (lodged.take 7) ⟨0, ""⟩ .close [] rfl 0 2 (by decide +kernel) (Or.inl rfl)).2

end Estate

end ScopedMethods
