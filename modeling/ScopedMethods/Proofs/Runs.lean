import ScopedMethods.Proofs.Acts
import ScopedMethods.Proofs.Calls

/-!
# Lawful runs

A realm is made anew or destroyed only while no scope of it is open, and
without a depth limit the level of a thread does not wrap around, since level 0
is that of a thread outside of all scopes. Under these conditions every act
keeps an arena sound and changes what is seen in one of two ways: a scope is
entered, or the innermost ones are left.
-/

set_option autoImplicit false

namespace ScopedMethods

def Act.leaving (depth : Nat) : Act → Nat
  | .leave => 1
  | .raise n => max n 1
  | .exit => depth
  | _ => 0

def Act.governs : Act → Bool
  | .register _ _ | .declare _ _ | .setFault _ _ _ | .createRealm _ _ | .destroyRealm _ => true
  | _ => false

namespace Arena

def Vacant (a : Arena) (key : Nat) : Prop := ∀ u ∈ a.threads.keys, depthIn key (a.frames u) = 0

instance (a : Arena) (key : Nat) : Decidable (a.Vacant key) := by
  unfold Vacant
  infer_instance

def Permits (a : Arena) (t : Nat) : Act → Prop
  | .createRealm key _ => a.Vacant key
  | .destroyRealm key => a.Vacant key
  | .enter key _ => (a.options key).maxDepth = 0 → depthIn key (a.frames t) + 1 < 2 ^ 32
  | _ => True

instance (a : Arena) (t : Nat) (act : Act) : Decidable (a.Permits t act) := by
  cases act <;> unfold Permits <;> infer_instance

def Lawful : Arena → List (Nat × Act) → Prop
  | _, [] => True
  | a, (t, act) :: rest => a.Permits t act ∧ Lawful (a.step t act).2 rest

instance decidableLawful (a : Arena) : (acts : List (Nat × Act)) → Decidable (a.Lawful acts)
  | [] => .isTrue trivial
  | (t, act) :: rest =>
    have := decidableLawful (a.step t act).2 rest
    inferInstanceAs (Decidable (a.Permits t act ∧ Lawful (a.step t act).2 rest))

/-- The two ways in which an act changes what its thread sees. -/
inductive Change (t : Nat) (act : Act) (a : Arena) (e : Ending) (a' : Arena) : Prop
  | entered (key : Nat) (types : List TypeId) (id : Nat) (act_eq : act = .enter key types)
      (ending : e = .entered) (frames : a'.frames t = ⟨key, id⟩ :: a.frames t)
      (overlay : (a.outlook t key).Over a.catalog.tree types (a'.outlook t key))
      (others : ∀ k, k ≠ key → a'.outlook t k = a.outlook t k)
  | left (ending : e ≠ .entered)
      (frames : a'.frames t = (a.frames t).drop (act.leaving (a.frames t).length))
      (outlook : ∀ k, a'.outlook t k =
        Outlook.leave^[depthIn k ((a.frames t).take (act.leaving (a.frames t).length))]
          (a.outlook t k))

structure Step (t : Nat) (act : Act) (a : Arena) (e : Ending) (a' : Arena) : Prop where
  sound : a'.Sound a'.frames
  shift : Shift t a a'
  others : ∀ u, u ≠ t → a'.frames u = a.frames u
  settled : act.governs = false → Settled a a'
  change : Change t act a e a'

variable {a a' b : Arena} {t key : Nat} {act : Act} {e : Ending}

theorem frames_setThread (x : ThreadState) (u : Nat) :
    (a.setThread t x).frames u = if t = u then x.frames else a.frames u := by
  rw [frames, thread, setThread, Slots.get?_set]
  split <;> rfl

theorem frames_withThread (u : Nat) : (a.withThread t).frames u = a.frames u := by
  rw [withThread]
  split
  · rfl
  · rename_i h
    rw [frames, thread, setThread, Slots.get?_set]
    split
    · rename_i he
      have hn : a.threads.get? u = none := by
        subst he
        simpa [Slots.contains] using h
      rw [frames, thread, hn]
      rfl
    · rfl

theorem realms_withThread : (a.withThread t).realms = a.realms := by
  rw [withThread]
  split <;> rfl

theorem store_withThread : (a.withThread t).store = a.store := by
  rw [withThread]
  split <;> rfl

theorem catalog_withThread : (a.withThread t).catalog = a.catalog := by
  rw [withThread]
  split <;> rfl

theorem still_withThread (ha : a.Sound a.frames) (t : Nat) :
    (a.withThread t).Sound a.frames ∧ Still t a (a.withThread t) :=
  still_of_realms ha (by rw [store_withThread]; exact .refl _) realms_withThread t

theorem vacant_iff : a.Vacant key ↔ ∀ u, depthIn key (a.frames u) = 0 := by
  constructor
  · intro h u
    cases hu : a.threads.get? u with
    | none =>
      rw [frames, thread, hu]
      rfl
    | some x => exact h u (Slots.mem_keys_of_get? hu)
  · exact fun h u _ => h u

/-- An act that leaves all outlooks and frames alone. -/
theorem step_of_still (hs : a'.Sound a.frames) (h : Still t a a')
    (hf : ∀ u, a'.frames u = a.frames u) (hg : act.governs = false → Settled a a')
    (h0 : act.leaving (a.frames t).length = 0) (he : e ≠ .entered) : Step t act a e a' where
  sound := by
    rw [show a'.frames = a.frames from funext hf]
    exact hs
  shift := h.shift
  others := fun u _ => hf u
  settled := hg
  change := by
    refine .left he ?_ fun k => ?_
    · rw [hf, h0, List.drop_zero]
    · rw [h.same, h0]
      rfl

theorem step_outside (ha : a.Sound a.frames) (hf : a.frames t = []) :
    Step t act a .noScope a where
  sound := ha
  shift := .refl t a
  others := fun _ _ => rfl
  settled := fun _ => .refl a
  change := by
    refine .left (by simp) ?_ fun k => ?_
    · rw [hf, List.drop_nil]
    · rw [hf, List.take_nil]
      rfl

theorem step_of_left (ha : a.Sound a.frames) {fs gs : List Frame} (hf : a.frames t = fs ++ gs)
    (hn : act.leaving (a.frames t).length = fs.length ∨
      gs = [] ∧ fs.length ≤ act.leaving (a.frames t).length)
    (hs : Still t (a.leaveFrames t fs) a') (hs' : a'.Sound (Function.update a.frames t gs))
    (hg : ∀ u, a'.frames u = Function.update a.frames t gs u)
    (hc : Settled (a.leaveFrames t fs) a') (he : e ≠ .entered) : Step t act a e a' := by
  obtain ⟨h1, h2, h3, h4⟩ := leaveFrames_spec ha hf
  have htake : (a.frames t).take (act.leaving (a.frames t).length) = fs ∧
      (a.frames t).drop (act.leaving (a.frames t).length) = gs := by
    rcases hn with hn | ⟨rfl, hn⟩
    · rw [hn, hf]
      simp
    · rw [List.append_nil] at hf
      rw [hf] at hn ⊢
      exact ⟨List.take_of_length_le hn, List.drop_of_length_le hn⟩
  refine ⟨?_, h2.trans hs.shift, fun u hu => ?_, fun _ => h3.toSettled.trans hc,
    .left he ?_ fun k => ?_⟩
  · rw [show a'.frames = Function.update a.frames t gs from funext hg]
    exact hs'
  · rw [hg, Function.update_of_ne hu]
  · rw [hg, Function.update_self, htake.2]
  · rw [hs.same, h4, htake.1]

theorem same_register (tree : TypeTree) (c : Caller) (name : String) (parent : TypeId)
    (s : Store) : s.Same (tree.registerReporting c name parent s).2.2 := by
  rw [TypeTree.registerReporting_eq]
  cases tree.register name parent with
  | error r => exact (Store.Same.refl s).refuse c 0 r
  | ok p => exact (Store.Same.refl s).note c _

theorem same_declare (tree : TypeTree) (c : Caller) (on : TypeId) (d : MethodDecl) (s : Store) :
    s.Same (tree.declareReporting c on d s).2.2 := by
  rw [TypeTree.declareReporting_eq]
  cases tree.declare on d with
  | error r => exact (Store.Same.refl s).refuse c 0 r
  | ok tree' =>
    simp only
    cases tree'.info? on with
    | none => exact .refl s
    | some i => exact (Store.Same.refl s).note c _

theorem same_setNickname (a : Arena) (t : Nat) (name : String) (system : Bool) :
    a.store.Same (a.setNickname t name system).store := by
  have h := (Store.Same.refl a.store).note ((a.setThread t
    { a.thread t with nickname := name }).caller t) (.threadNicknamed t name)
  simp only [setNickname]
  split
  · exact h.note _ _
  · exact h

theorem frames_destroyRealm (u : Nat) : (a.destroyRealm t key).frames u = a.frames u := by
  rw [destroyRealm]
  cases a.realm? key <;> rfl

theorem frames_createRealm (o : Options) (u : Nat) :
    (a.createRealm t key o).frames u = a.frames u := by
  rw [createRealm]
  exact frames_destroyRealm u

/-- The conditions on an act, in terms of the scopes that threads are inside of. -/
structure Allowed (a : Arena) (t : Nat) (act : Act) : Prop where
  created : ∀ key o, act = .createRealm key o → ∀ u, depthIn key (a.frames u) = 0
  destroyed : ∀ key, act = .destroyRealm key → ∀ u, depthIn key (a.frames u) = 0
  entered : ∀ key types, act = .enter key types → (a.options key).maxDepth = 0 →
    depthIn key (a.frames t) + 1 < 2 ^ 32

theorem options_withThread (key : Nat) : (a.withThread t).options key = a.options key := by
  rw [options, options, realm?, realm?, realms_withThread]

theorem settled_withThread : Settled a (a.withThread t) :=
  ⟨catalog_withThread, options_withThread⟩

theorem allowed_iff : a.Allowed t act ↔ a.Permits t act := by
  constructor
  · intro h
    cases act with
    | createRealm key o => exact vacant_iff.2 (h.created key o rfl)
    | destroyRealm key => exact vacant_iff.2 (h.destroyed key rfl)
    | enter key types => exact h.entered key types rfl
    | _ => trivial
  · intro h
    constructor
    · rintro key o rfl
      exact vacant_iff.1 h
    · rintro key rfl
      exact vacant_iff.1 h
    · rintro key types rfl
      exact h

theorem Allowed.withThread (h : a.Allowed t act) : (a.withThread t).Allowed t act where
  created := by
    intro key o he u
    rw [frames_withThread]
    exact h.created key o he u
  destroyed := by
    intro key he u
    rw [frames_withThread]
    exact h.destroyed key he u
  entered := by
    intro key types he
    rw [frames_withThread, options_withThread]
    exact h.entered key types he

theorem frames_left {b : Arena} (hb : Steady a b) (gs : List Frame) (u : Nat) :
    (b.setFrames t gs).frames u = Function.update a.frames t gs u := by
  rw [setFrames, frames_setThread]
  by_cases hu : t = u
  · rw [if_pos hu, hu, Function.update_self]
  · rw [if_neg hu, Function.update_of_ne (Ne.symm hu)]
    exact hb.frames u

section Perform

variable (ha : a.Sound a.frames)

include ha

theorem perform_enter (types : List TypeId)
    (hl : (a.options key).maxDepth = 0 → depthIn key (a.frames t) + 1 < 2 ^ 32) :
    Step t (.enter key types) a (a.enter t key types).1 (a.enter t key types).2 := by
  have he := entry_spec ha a.catalog t key (a.thread t).nickname types hl
  rw [enter]
  simp only [caller]
  generalize a.inRealm t key (fun r s => r.enter a.catalog ⟨t, (a.thread t).nickname⟩ types s) = o
    at he ⊢
  obtain ⟨result, a₁⟩ := o
  simp only at he ⊢
  cases result with
  | error f =>
    obtain ⟨hs, hsame⟩ := he.refused f rfl
    have hstill : Still t a a₁ := ⟨he.shift, fun k => by
      by_cases hk : k = key
      · rw [hk, hsame]
      · exact he.others k hk⟩
    exact step_of_still hs hstill he.steady.frames (fun _ => he.steady.toSettled) rfl
      (by simp)
  | ok id =>
    obtain ⟨hs, hover⟩ := he.entered id rfl
    have hf : ∀ u, (a₁.setFrames t (⟨key, id⟩ :: (a₁.thread t).frames)).frames u =
        Function.update a.frames t (⟨key, id⟩ :: a.frames t) u := by
      intro u
      rw [setFrames, frames_setThread]
      by_cases hu : t = u
      · subst hu
        rw [if_pos rfl, Function.update_self]
        exact congrArg _ (he.steady.frames t)
      · rw [if_neg hu, Function.update_of_ne (Ne.symm hu), he.steady.frames]
    obtain ⟨h1, h2⟩ := still_of_realms (b := a₁.setFrames t (⟨key, id⟩ :: (a₁.thread t).frames)) hs
      (.refl _) rfl t
    refine ⟨?_, he.shift.trans h2.shift, fun u hu => ?_, fun _ => ?_, ?_⟩
    · rw [show (a₁.setFrames t _).frames = _ from funext hf]
      exact h1
    · rw [hf, Function.update_of_ne hu]
    · exact he.steady.toSettled.trans ⟨rfl, fun _ => rfl⟩
    · refine .entered key types id rfl rfl ?_ ?_ fun k hk => ?_
      · rw [hf, Function.update_self]
      · rw [h2.same]
        exact hover
      · rw [h2.same, he.others k hk]

theorem perform_leave {f : Frame} {fs : List Frame} (hf : a.frames t = f :: fs) :
    Step t .leave a (.left f.realm) ((a.leaveFrame t f).setFrames t fs) := by
  have hsplit : a.frames t = [f] ++ fs := hf
  obtain ⟨h1, -, h3, -⟩ := leaveFrames_spec ha hsplit
  obtain ⟨h5, h6⟩ := still_of_realms (b := (a.leaveFrame t f).setFrames t fs) h1 (.refl _) rfl t
  exact step_of_left ha hsplit (Or.inl rfl) h6 h5 (frames_left h3 fs) ⟨rfl, fun _ => rfl⟩
    (by simp)

theorem perform_raise (n : Nat) : Step t (.raise n) a (a.raise t n).1 (a.raise t n).2 := by
  have hsplit : a.frames t = (a.frames t).take (max n 1) ++
      (a.frames t).drop ((a.frames t).take (max n 1)).length := by
    rw [List.length_take]
    rcases Nat.le_total (max n 1) (a.frames t).length with hle | hle
    · rw [Nat.min_eq_left hle, List.take_append_drop]
    · rw [Nat.min_eq_right hle, List.take_of_length_le hle, List.drop_length, List.append_nil]
  obtain ⟨h1, -, h3, -⟩ := leaveFrames_spec ha hsplit
  cases hlast : ((a.thread t).frames.take (max n 1)).getLast? with
  | none =>
    have h0 : max n 1 ≠ 0 := by omega
    have hnil : a.frames t = [] := by
      rcases List.take_eq_nil_iff.1 (List.getLast?_eq_none_iff.1 hlast) with h | h
      · exact absurd h h0
      · exact h
    simp only [raise, hlast]
    exact step_outside ha hnil
  | some f =>
    simp only [raise, hlast]
    obtain ⟨h5, h6⟩ := still_of_realms
      (b := (a.leaveFrames t ((a.frames t).take (max n 1))).setFrames t
        ((a.frames t).drop ((a.frames t).take (max n 1)).length)) h1 (.refl _) rfl t
    refine step_of_left ha hsplit ?_ h6 h5 (frames_left h3 _) ⟨rfl, fun _ => rfl⟩
      (by simp)
    rw [List.length_take]
    rcases Nat.le_total (max n 1) (a.frames t).length with hle | hle
    · exact Or.inl (Nat.min_eq_left hle).symm
    · rw [Nat.min_eq_right hle]
      exact Or.inr ⟨List.drop_length, hle⟩

theorem perform_exit : Step t .exit a (.flag true) (a.exit t) := by
  have hf : a.frames t = a.frames t ++ [] := (List.append_nil _).symm
  obtain ⟨h1, -, h3, -⟩ := leaveFrames_spec ha hf
  have hnil : Function.update a.frames t [] t = [] := Function.update_self _ _ _
  obtain ⟨i1, i2, i3⟩ := exitRealms_spec h1 t (a.leaveFrames t (a.frames t)).realms.keys
  rw [hnil, Function.update_idem] at i1
  have hstill : Still t _ _ := ⟨i2, fun k => (i1.outside hnil k).trans (h1.outside hnil k).symm⟩
  obtain ⟨j1, j2⟩ := still_of_realms (b := a.exit t) i1 (.refl _) rfl t
  refine step_of_left ha hf (Or.inl rfl) (hstill.trans j2) j1 (fun u => ?_)
    (i3.toSettled.trans ⟨rfl, fun _ => rfl⟩) (by simp)
  rw [frames, thread, exit, Slots.get?_erase]
  by_cases hu : t = u
  · rw [if_pos hu, hu, Function.update_self]
    rfl
  · rw [if_neg hu, Function.update_of_ne (Ne.symm hu)]
    exact (h3.trans i3).frames u

theorem perform_inRealm {α : Type} (f : Realm → Store → α × Realm × Store)
    (hf : ∀ r s, r.Sound s → Realm.Quiet t r s (f r s).2.1 (f r s).2.2)
    (h0 : act.leaving (a.frames t).length = 0) (he : e ≠ .entered) :
    Step t act a e (a.inRealm t key f).2 := by
  obtain ⟨h1, h2, h3⟩ := inRealm_spec ha t key f hf
  exact step_of_still h1 h2 h3.frames (fun _ => h3.toSettled) h0 he

theorem perform_spec (hp : a.Allowed t act) :
    Step t act a (a.perform t act).1 (a.perform t act).2 := by
  cases act with
  | register name parent =>
    obtain ⟨h1, h2⟩ := still_of_realms (b := (a.perform t (.register name parent)).2) ha
      (same_register _ _ _ _ _) rfl t
    exact step_of_still h1 h2 (fun _ => rfl) (by simp [Act.governs]) rfl (by simp [perform])
  | declare on d =>
    obtain ⟨h1, h2⟩ := still_of_realms (b := (a.perform t (.declare on d)).2) ha
      (same_declare _ _ _ _ _) rfl t
    exact step_of_still h1 h2 (fun _ => rfl) (by simp [Act.governs]) rfl (by simp [perform])
  | setFault q ty on =>
    obtain ⟨h1, h2⟩ := still_of_realms (b := (a.perform t (.setFault q ty on)).2) ha
      (.refl _) rfl t
    exact step_of_still h1 h2 (fun _ => rfl) (by simp [Act.governs]) rfl (by simp [perform])
  | createRealm key o =>
    obtain ⟨h1, h2⟩ := still_createRealm ha (hp.created key o rfl) t o
    exact step_of_still h1 h2 (frames_createRealm o) (by simp [Act.governs]) rfl (by simp [perform])
  | destroyRealm key =>
    obtain ⟨h1, h2⟩ := still_destroyRealm ha (hp.destroyed key rfl) t
    exact step_of_still h1 h2 frames_destroyRealm (by simp [Act.governs]) rfl (by simp [perform])
  | enter key types => exact perform_enter ha types (hp.entered key types rfl)
  | leave =>
    simp only [perform]
    cases hf : (a.thread t).frames with
    | nil => exact step_outside ha hf
    | cons f fs => exact perform_leave ha hf
  | raise n => exact perform_raise ha n
  | lookup key name =>
    exact perform_inRealm ha _ (fun r s hr => (Realm.lookup_spec hr (a.caller t) name).1) rfl
      (by simp [perform])
  | activeHere key =>
    exact perform_inRealm ha _ (fun r s hr => (Realm.activeHere_spec hr (a.caller t)).1) rfl
      (by simp [perform])
  | currentLevel key =>
    exact perform_inRealm ha _ (fun r s hr => (Realm.currentLevel_spec hr (a.caller t)).1) rfl
      (by simp [perform])
  | nameUsage key name =>
    exact perform_inRealm ha _ (fun r s hr => Realm.quiet_nameUsage hr (a.caller t) name) rfl
      (by simp [perform])
  | requestReclaim key =>
    exact perform_inRealm ha _ (fun r s hr => Realm.quiet_requestReclaim hr (a.caller t)) rfl
      (by simp [perform])
  | exit => exact perform_exit ha
  | setNickname name system =>
    obtain ⟨h1, h2⟩ := still_of_realms (b := (a.perform t (.setNickname name system)).2) ha
      (same_setNickname a t name system) rfl t
    refine step_of_still h1 h2 (fun u => ?_) (fun _ => ⟨rfl, fun _ => rfl⟩) rfl (by simp [perform])
    refine (frames_setThread (a := a) (t := t) { a.thread t with nickname := name } u).trans ?_
    split
    · rename_i he
      rw [← he]
      rfl
    · rfl

end Perform

theorem Step.after (hb : Still t a b) (hf : ∀ u, b.frames u = a.frames u)
    (hc : Settled a b) (h : Step t act b e a') : Step t act a e a' where
  sound := h.sound
  shift := hb.shift.trans h.shift
  others := fun u hu => (h.others u hu).trans (hf u)
  settled := fun hg => hc.trans (h.settled hg)
  change := by
    rcases h.change with ⟨key, types, id, h1, h2, h3, h4, h5⟩ | ⟨h1, h2, h3⟩
    · rw [hf] at h3
      rw [hb.same, hc.catalog] at h4
      exact .entered key types id h1 h2 h3 h4 fun k hk => (h5 k hk).trans (hb.same k)
    · rw [hf] at h2 h3
      refine .left h1 h2 fun k => ?_
      rw [h3, hb.same]

theorem step_eq (h : act ≠ .exit) : a.step t act = (a.withThread t).perform t act := by
  cases act <;> first | rfl | exact absurd rfl h

theorem step_allowed (ha : a.Sound a.frames) (hp : a.Allowed t act) :
    Step t act a (a.step t act).1 (a.step t act).2 := by
  by_cases he : act = .exit
  · subst he
    simp only [step]
    split
    · exact perform_exit ha
    · rename_i h
      have hn : a.threads.get? t = none := by simpa [Slots.contains] using h
      have hnil : a.frames t = [] := by
        rw [frames, thread, hn]
        rfl
      exact step_of_still ha (.refl t a) (fun _ => rfl) (fun _ => .refl a) (by rw [hnil]; rfl)
        (by simp)
  · obtain ⟨h1, h2⟩ := still_withThread ha t
    have hf : (a.withThread t).frames = a.frames := funext frames_withThread
    rw [step_eq he]
    refine .after h2 frames_withThread settled_withThread (perform_spec ?_ hp.withThread)
    rw [hf]
    exact h1

theorem step_spec (ha : a.Sound a.frames) (hp : a.Permits t act) :
    Step t act a (a.step t act).1 (a.step t act).2 :=
  step_allowed ha (allowed_iff.2 hp)

end Arena

end ScopedMethods
