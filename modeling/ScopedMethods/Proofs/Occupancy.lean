import ScopedMethods.Proofs.Conservation
import ScopedMethods.Proofs.Holders

/-!
# Held stacks

Only threads that are there hold stacks, so the live stacks of a realm are as
many as the threads that hold one. What one thread does gives no other thread a
stack; where idle stacks are released, it leaves itself one only inside of a
scope.
-/

set_option autoImplicit false

namespace ScopedMethods.Arena

/-- Where idle stacks are released, a thread has a stack only inside of a scope. -/
def Tight (t : Nat) (a : Arena) : Prop :=
  ∀ key r, a.realm? key = some r → r.options.releaseIdle = true →
    ∀ id, r.custody.held? t = some id → (r.outlook a.store t).level ≠ 0

/-- What one thread does to who holds a stack. -/
structure Occupies (t : Nat) (a a' : Arena) : Prop where
  others : ∀ {u key : Nat} {r' : Realm} {id : Nat}, u ≠ t → a'.realm? key = some r' →
    r'.custody.held? u = some id →
      ∃ r, a.realm? key = some r ∧ r.options = r'.options ∧ r.custody.held? u = some id
  tight : a.Tight t → a'.Tight t

variable {a a' a₁ : Arena} {F : Nat → List Frame} {t u key : Nat} {r : Realm} {act : Act}

namespace Occupies

theorem refl (t : Nat) (a : Arena) : Occupies t a a := ⟨fun _ hr hid => ⟨_, hr, rfl, hid⟩, id⟩

theorem trans (h : Occupies t a a₁) (h' : Occupies t a₁ a') : Occupies t a a' where
  others := by
    intro u key r' id hu hr hid
    obtain ⟨r₁, hr₁, ho₁, hid₁⟩ := h'.others hu hr hid
    obtain ⟨r, hr, ho, hid⟩ := h.others hu hr₁ hid₁
    exact ⟨r, hr, ho.trans ho₁, hid⟩
  tight := fun ht => h'.tight (h.tight ht)

end Occupies

theorem occupies_succeeds {b : Arena} (ha : a.Sound F) (hs : a.store.Same b.store)
    (hr : ∀ k, Succeeds F k (a.realm? k) (b.realm? k)) (t : Nat) : Occupies t a b where
  others := by
    intro u key r' id _ hr' hid
    rcases hr key with he | ⟨-, hn⟩
    · exact ⟨r', he.symm.trans hr', rfl, hid⟩
    · obtain ⟨i, o, rfl⟩ := hn r' hr'
      cases hid
  tight := by
    intro h key r' hr' hrel id hid
    rcases hr key with he | ⟨-, hn⟩
    · have hold := he.symm.trans hr'
      have hsame : r'.outlook b.store t = r'.outlook a.store t :=
        (ha.realms hold).outlook_keeps hs.keeps rfl fun _ _ => rfl
      rw [hsame]
      exact h key r' hold hrel id hid
    · obtain ⟨i, o, rfl⟩ := hn r' hr'
      cases hid

theorem occupies_of_realms {b : Arena} (ha : a.Sound F) (hs : a.store.Same b.store)
    (hr : b.realms = a.realms) (t : Nat) : Occupies t a b :=
  occupies_succeeds ha hs (fun _ => Or.inl (by rw [realm?, realm?, hr])) t

theorem occupies_setFrames (ha : a.Sound F) (t : Nat) (fs : List Frame) :
    Occupies t a (a.setFrames t fs) :=
  occupies_of_realms (b := a.setFrames t fs) ha (.refl _) rfl t

theorem occupies_setRealm (ha : a.Sound F) (hr : a.realm? key = some r) {r' : Realm} {s' : Store}
    (hm : Realm.Move t r a.store r' s')
    (ht : r.options.releaseIdle = true →
      (∀ id, r.custody.held? t = some id → (r.outlook a.store t).level ≠ 0) →
      ∀ id, r'.custody.held? t = some id → (r'.outlook s' t).level ≠ 0) :
    Occupies t a (a.setRealm key r' s') where
  others := by
    intro u k q id hu hq hid
    rcases Slots.get?_set_cases hq with ⟨rfl, rfl⟩ | ⟨-, hq⟩
    · exact ⟨r, hr, hm.options.symm, (hm.held hu).symm.trans hid⟩
    · exact ⟨q, hq, rfl, hid⟩
  tight := by
    intro h k q hq hrel id hid
    rcases Slots.get?_set_cases hq with ⟨rfl, rfl⟩ | ⟨-, hq⟩
    · rw [hm.options] at hrel
      exact ht hrel (h _ r hr hrel) id hid
    · have hout : q.outlook s' t = q.outlook a.store t :=
        (ha.realms hq).outlook_keeps hm.store rfl fun _ _ => rfl
      show (q.outlook s' t).level ≠ 0
      rw [hout]
      exact h k q hq hrel id hid

theorem occupies_obtainRealm (ha : a.Sound F) (t key : Nat) :
    Occupies t a (a.obtainRealm t key).2 := by
  obtain ⟨hs, hk⟩ := succeeds_obtainRealm ha t key
  exact occupies_succeeds ha hs hk t

theorem occupies_inRealm {α : Type} (ha : a.Sound F) (t key : Nat)
    (f : Realm → Store → α × Realm × Store)
    (hf : ∀ r s, r.Sound s → Realm.Quiet t r s (f r s).2.1 (f r s).2.2)
    (hn : ∀ (r : Realm) s, r.HoldsNoMore (f r s).2.1) : Occupies t a (a.inRealm t key f).2 := by
  obtain ⟨h1, -, -, hr⟩ := obtainRealm_spec ha t key
  have ho := occupies_obtainRealm ha t key
  rw [inRealm]
  generalize a.obtainRealm t key = p at h1 hr ho
  obtain ⟨r, a₁⟩ := p
  have hq := hf r a₁.store (h1.realms hr)
  refine ho.trans (occupies_setRealm h1 hr hq.move ?_)
  intro _ htight id hid
  rw [hq.same]
  exact htight id (hn _ _ t id hid)

theorem occupies_entry (ha : a.Sound F) (c : Catalog) (t key : Nat) (nickname : String)
    (types : List TypeId)
    (hl : (a.options key).maxDepth = 0 → depthIn key (F t) + 1 < 2 ^ 32) :
    Occupies t a (a.inRealm t key fun r s => r.enter c ⟨t, nickname⟩ types s).2 := by
  obtain ⟨h1, -, -, hr⟩ := obtainRealm_spec ha t key
  have ho := occupies_obtainRealm ha t key
  have hroom := obtained_room ha t key hl
  rw [inRealm]
  generalize a.obtainRealm t key = p at h1 hr ho hroom
  obtain ⟨r, a₁⟩ := p
  have he := Realm.enter_spec (h1.realms hr) c ⟨t, nickname⟩ types hroom
  have hout := Realm.enter_released (h1.realms hr) c ⟨t, nickname⟩ types
  simp only at he hout ⊢
  generalize r.enter c ⟨t, nickname⟩ types a₁.store = o at he hout ⊢
  obtain ⟨result, r', s'⟩ := o
  refine ho.trans (occupies_setRealm h1 hr he.move ?_)
  intro hrel _ id hid h0
  cases result with
  | ok i =>
    have hlevel := (he.entered i rfl).2.level
    simp only at h0
    rw [h0] at hlevel
    exact absurd hlevel.symm (Nat.succ_ne_zero _)
  | error f =>
    have hnone := hout hrel (by rw [← he.refused f rfl]; exact h0) rfl
    simp only at hid hnone
    rw [hnone] at hid
    cases hid

theorem occupies_leaveFrame (ha : a.Sound F) {f : Frame} {fs : List Frame} (hf : F t = f :: fs) :
    Occupies t a (a.leaveFrame t f) := by
  obtain ⟨r, hr, hid⟩ := ha.framed (t := t) (f := f) (by rw [hf]; exact List.mem_cons_self)
  have hd : 0 < (r.outlook a.store t).level.toNat := by
    rw [← outlook_some hr, ha.depth, hf]
    exact depthIn_pos List.mem_cons_self
  obtain ⟨hm, hout, -⟩ := Realm.leave_spec (t := a.caller t) (ha.realms hr) hid hd
  have hnone := Realm.leave_released (t := a.caller t) (ha.realms hr) hid
  rw [leaveFrame, hr]
  simp only [caller] at hm hout hnone ⊢
  generalize r.leave ⟨t, (a.thread t).nickname⟩ f.stack a.store = o at hm hout hnone ⊢
  obtain ⟨r', s'⟩ := o
  refine occupies_setRealm ha hr hm ?_
  intro hrel _ id hid' h0
  simp only at hout hnone
  rw [hout] at h0
  rw [hnone hrel h0] at hid'
  cases hid'

theorem occupies_leaveFrames (ha : a.Sound F) {fs gs : List Frame} (hf : F t = fs ++ gs) :
    Occupies t a (a.leaveFrames t fs) := by
  induction fs generalizing a F with
  | nil => exact .refl t a
  | cons f fs ih =>
    obtain ⟨h1, -⟩ := leaveFrame_spec ha hf
    exact (occupies_leaveFrame ha hf).trans (ih h1 (Function.update_self _ _ _))

theorem occupies_exitRealm (ha : a.Sound F) (t key : Nat) : Occupies t a (a.exitRealm t key) := by
  rw [exitRealm]
  cases hr : a.realm? key with
  | none => exact .refl t a
  | some r =>
    obtain ⟨hm, -⟩ := Realm.threadExit_spec (ha.realms hr) (a.caller t)
    have hnone := Realm.held?_threadExit (s := a.store) r (a.caller t)
    simp only [caller] at hm hnone ⊢
    generalize r.threadExit ⟨t, (a.thread t).nickname⟩ a.store = o at hm hnone ⊢
    obtain ⟨r', s'⟩ := o
    refine occupies_setRealm ha hr hm fun _ _ id hid => ?_
    rw [hnone] at hid
    cases hid

theorem occupies_exitRealms (ha : a.Sound F) (t : Nat) (keys : List Nat) :
    Occupies t a (keys.foldl (exitRealm t) a) := by
  induction keys generalizing a F with
  | nil => exact .refl t a
  | cons key keys ih =>
    obtain ⟨h1, -⟩ := exitRealm_spec ha t key
    exact (occupies_exitRealm ha t key).trans (ih h1)

theorem held_of_exitRealms {keys : List Nat} {r' : Realm} {id : Nat}
    (hr : (keys.foldl (exitRealm t) a).realm? key = some r')
    (hid : r'.custody.held? t = some id) : key ∉ keys ∧ a.realm? key = some r' := by
  induction keys generalizing a with
  | nil => exact ⟨List.not_mem_nil, hr⟩
  | cons k keys ih =>
    obtain ⟨hk, hr₁⟩ := ih hr
    have hne : ∀ {r₁}, k ≠ key → a.realm? key = some r₁ →
        key ∉ k :: keys ∧ a.realm? key = some r₁ :=
      fun hne h => ⟨fun hm => (List.mem_cons.1 hm).elim (Ne.symm hne) hk, h⟩
    rw [exitRealm] at hr₁
    cases hq : a.realm? k with
    | none =>
      rw [hq] at hr₁
      refine hne ?_ hr₁
      rintro rfl
      have h := hq.symm.trans hr₁
      cases h
    | some q =>
      rw [hq] at hr₁
      rcases Slots.get?_set_cases hr₁ with ⟨-, rfl⟩ | ⟨hk', hr₁⟩
      · have h := (Realm.held?_threadExit (s := a.store) q (a.caller t)).symm.trans hid
        cases h
      · exact hne hk' hr₁

structure Staffed (a : Arena) : Prop where
  threads : a.threads.Distinct
  holders : ∀ {u key : Nat} {r : Realm} {id : Nat}, a.realm? key = some r →
    r.custody.held? u = some id → u ∈ a.threads.keys
  tight : ∀ t, a.Tight t

theorem Occupies.tight_all (h : Occupies t a a') (ht : ∀ u, a.Tight u)
    (ho : ∀ {u : Nat}, u ≠ t → ∀ key, a'.outlook u key = a.outlook u key) (u : Nat) :
    a'.Tight u := by
  by_cases hu : u = t
  · exact hu ▸ h.tight (ht t)
  · intro key r' hr' hrel id hid
    obtain ⟨r, hr, hopt, hid⟩ := h.others hu hr' hid
    rw [← outlook_some hr', ho hu, outlook_some hr]
    exact ht u key r hr (by rw [hopt, hrel]) id hid

section Perform

variable (ha : a.Sound a.frames)

include ha

theorem occupies_exit : Occupies t a (a.exit t) := by
  have hf : a.frames t = a.frames t ++ [] := (List.append_nil _).symm
  obtain ⟨h1, -⟩ := leaveFrames_spec ha hf
  obtain ⟨i1, -⟩ := exitRealms_spec h1 t (a.leaveFrames t (a.frames t)).realms.keys
  exact ((occupies_leaveFrames ha hf).trans (occupies_exitRealms h1 t _)).trans
    (occupies_of_realms (b := a.exit t) i1 (.refl _) rfl t)

theorem occupies_raise (n : Nat) : Occupies t a (a.raise t n).2 := by
  have hsplit : a.frames t = (a.frames t).take (max n 1) ++ (a.frames t).drop (max n 1) :=
    (List.take_append_drop _ _).symm
  obtain ⟨h1, -⟩ := leaveFrames_spec ha hsplit
  simp only [raise]
  split
  · exact .refl t a
  · exact (occupies_leaveFrames ha hsplit).trans (occupies_setFrames h1 t _)

theorem occupies_perform (hp : a.Allowed t act) : Occupies t a (a.perform t act).2 := by
  cases act with
  | register name parent =>
    exact occupies_of_realms (b := (a.perform t (.register name parent)).2) ha
      (same_register _ _ _ _ _) rfl t
  | declare on d =>
    exact occupies_of_realms (b := (a.perform t (.declare on d)).2) ha (same_declare _ _ _ _ _)
      rfl t
  | setFault q ty on =>
    exact occupies_of_realms (b := (a.perform t (.setFault q ty on)).2) ha (.refl _) rfl t
  | createRealm key o =>
    have h0 := hp.created key o rfl
    exact occupies_succeeds ha (same_createRealm ha h0 t o) (succeeds_createRealm h0 t o) t
  | destroyRealm key =>
    have h0 := hp.destroyed key rfl
    exact occupies_succeeds ha (same_destroyRealm ha h0 t) (succeeds_destroyRealm h0 t) t
  | enter key types =>
    have ho := occupies_entry ha a.catalog t key (a.thread t).nickname types
      (hp.entered key types rfl)
    have he := entry_spec ha a.catalog t key (a.thread t).nickname types (hp.entered key types rfl)
    show Occupies t a (a.enter t key types).2
    rw [enter]
    simp only [caller]
    generalize a.inRealm t key (fun r s => r.enter a.catalog ⟨t, (a.thread t).nickname⟩ types s) = o
      at ho he
    obtain ⟨result, a₁⟩ := o
    cases result with
    | error f => exact ho
    | ok id => exact ho.trans (occupies_setFrames (he.entered id rfl).1 t _)
  | leave =>
    simp only [perform]
    cases hf : (a.thread t).frames with
    | nil => exact .refl t a
    | cons f fs =>
      obtain ⟨h1, -⟩ := leaveFrame_spec ha (show a.frames t = f :: fs from hf)
      exact (occupies_leaveFrame ha hf).trans (occupies_setFrames h1 t fs)
  | raise n => exact occupies_raise ha n
  | lookup key name =>
    exact occupies_inRealm ha t key _ (fun r s hr => (Realm.lookup_spec hr (a.caller t) name).1)
      fun r s => Realm.lookup_holdsNoMore r s _ name
  | activeHere key =>
    exact occupies_inRealm ha t key _ (fun r s hr => (Realm.activeHere_spec hr (a.caller t)).1)
      fun r s => Realm.activeHere_holdsNoMore r s _
  | currentLevel key =>
    exact occupies_inRealm ha t key _ (fun r s hr => (Realm.currentLevel_spec hr (a.caller t)).1)
      fun r s => Realm.peek_holdsNoMore r s _
  | nameUsage key name =>
    exact occupies_inRealm ha t key _ (fun r s hr => Realm.quiet_nameUsage hr (a.caller t) name)
      fun r s => Realm.nameUsage_holdsNoMore r s _ name
  | requestReclaim key =>
    exact occupies_inRealm ha t key _ (fun r s hr => Realm.quiet_requestReclaim hr (a.caller t))
      fun r s => Realm.requestReclaim_holdsNoMore r s _
  | exit => exact occupies_exit ha
  | setNickname name system =>
    exact occupies_of_realms (b := (a.perform t (.setNickname name system)).2) ha
      (same_setNickname a t name system) rfl t

theorem occupies_step (hp : a.Allowed t act) : Occupies t a (a.step t act).2 := by
  by_cases he : act = .exit
  · subst he
    simp only [step]
    split
    · exact occupies_exit ha
    · exact .refl t a
  · obtain ⟨h1, -⟩ := still_withThread ha t
    have hf : (a.withThread t).frames = a.frames := funext frames_withThread
    rw [step_eq he]
    refine .trans (occupies_of_realms (b := a.withThread t) ha ?_ realms_withThread t)
      (occupies_perform (by rw [hf]; exact h1) hp.withThread)
    rw [store_withThread]
    exact .refl _

theorem occupies_cutOff (t : Nat) : Occupies t a (a.cutOff t) := by
  obtain ⟨h1, -⟩ := exitRealms_spec ha t a.realms.keys
  exact (occupies_exitRealms ha t _).trans
    (occupies_of_realms (b := a.cutOff t) h1 (.refl _) rfl t)

end Perform

theorem threads_inRealm {α : Type} (t key : Nat) (f : Realm → Store → α × Realm × Store) :
    (a.inRealm t key f).2.threads = a.threads := by
  rw [inRealm, obtainRealm]
  cases a.realm? key <;> rfl

theorem threads_leaveFrame (t : Nat) (f : Frame) : (a.leaveFrame t f).threads = a.threads := by
  rw [leaveFrame]
  cases a.realm? f.realm <;> rfl

theorem threads_leaveFrames (t : Nat) (fs : List Frame) :
    (a.leaveFrames t fs).threads = a.threads := by
  induction fs generalizing a with
  | nil => rfl
  | cons f fs ih => exact ih.trans (threads_leaveFrame t f)

theorem threads_exitRealms (t : Nat) (keys : List Nat) :
    (keys.foldl (exitRealm t) a).threads = a.threads := by
  have hexit : ∀ (a : Arena) key, (a.exitRealm t key).threads = a.threads := by
    intro a key
    rw [exitRealm]
    cases a.realm? key <;> rfl
  induction keys generalizing a with
  | nil => rfl
  | cons key keys ih => exact ih.trans (hexit a key)

theorem threads_destroyRealm (t key : Nat) : (a.destroyRealm t key).threads = a.threads := by
  rw [destroyRealm]
  cases a.realm? key <;> rfl

theorem threads_perform (t : Nat) (he : act ≠ .exit) :
    (a.perform t act).2.threads = a.threads ∨
      ∃ x, (a.perform t act).2.threads = a.threads.set t x := by
  cases act with
  | createRealm key o => exact .inl (threads_destroyRealm (a := { a with store := _ }) t key)
  | destroyRealm key => exact .inl (threads_destroyRealm t key)
  | enter key types =>
    have h := threads_inRealm (a := a) t key fun r s => r.enter a.catalog (a.caller t) types s
    simp only [perform, enter]
    generalize a.inRealm t key (fun r s => r.enter a.catalog (a.caller t) types s) = o at h
    obtain ⟨result, a₁⟩ := o
    cases result with
    | error f => exact .inl h
    | ok id => exact .inr ⟨_, congrArg (Slots.set t _) h⟩
  | leave =>
    simp only [perform]
    split
    · exact .inl rfl
    · exact .inr ⟨_, congrArg (Slots.set t _) (threads_leaveFrame t _)⟩
  | raise n =>
    simp only [perform, raise]
    split
    · exact .inl rfl
    · exact .inr ⟨_, congrArg (Slots.set t _) (threads_leaveFrames t _)⟩
  | lookup key name =>
    exact .inl (threads_inRealm t key fun r s => r.lookup (a.caller t) name s)
  | activeHere key => exact .inl (threads_inRealm t key fun r s => r.activeHere (a.caller t) s)
  | currentLevel key => exact .inl (threads_inRealm t key fun r s => r.currentLevel (a.caller t) s)
  | nameUsage key name =>
    exact .inl (threads_inRealm t key fun r s => r.nameUsage (a.caller t) name s)
  | requestReclaim key =>
    exact .inl (threads_inRealm t key fun r s => r.requestReclaim (a.caller t) s)
  | exit => exact absurd rfl he
  | setNickname name system => exact .inr ⟨_, rfl⟩
  | _ => exact .inl rfl

theorem Staffed.after (h : a.Staffed) (ho : Occupies t a a')
    (hout : ∀ {u : Nat}, u ≠ t → ∀ key, a'.outlook u key = a.outlook u key)
    (hd : a'.threads.Distinct)
    (hothers : ∀ u, u ≠ t → u ∈ a.threads.keys → u ∈ a'.threads.keys)
    (hself : t ∈ a'.threads.keys ∨
      ∀ key r id, a'.realm? key = some r → r.custody.held? t ≠ some id) : a'.Staffed where
  threads := hd
  holders := by
    intro u key r id hr hid
    by_cases hu : u = t
    · subst hu
      exact hself.elim (fun hmem => hmem) fun hnone => absurd hid (hnone key r id hr)
    · obtain ⟨r₀, hr₀, -, hid₀⟩ := ho.others hu hr hid
      exact hothers u hu (h.holders hr₀ hid₀)
  tight := ho.tight_all h.tight hout

theorem held_of_none (hr : (a.realms.keys.foldl (exitRealm t) a).realm? key = some r) (id : Nat) :
    r.custody.held? t ≠ some id := by
  intro hid
  obtain ⟨hkey, hr'⟩ := held_of_exitRealms hr hid
  exact hkey (Slots.mem_keys_of_get? hr')

theorem Staffed.gone (h : a.Staffed) (ho : Occupies t a a')
    (hout : ∀ {u : Nat}, u ≠ t → ∀ key, a'.outlook u key = a.outlook u key)
    (ht : a'.threads = a.threads.erase t)
    (hnone : ∀ key r id, a'.realm? key = some r → r.custody.held? t ≠ some id) : a'.Staffed := by
  refine h.after ho hout ?_ ?_ (Or.inr hnone)
  · rw [ht]
    exact Slots.distinct_erase _ h.threads
  · intro u hu hmem
    rw [ht]
    exact Slots.mem_keys_erase.2 ⟨hu, hmem⟩

theorem threads_withThread : (a.withThread t).threads = a.threads ∧ t ∈ a.threads.keys ∨
    ∃ x, (a.withThread t).threads = a.threads.set t x := by
  rw [withThread]
  split
  · rename_i h
    obtain ⟨x, hx⟩ := Option.isSome_iff_exists.1 h
    exact .inl ⟨rfl, Slots.mem_keys_of_get? hx⟩
  · exact .inr ⟨_, rfl⟩

theorem threads_step (hd : a.threads.Distinct) (t : Nat) (he : act ≠ .exit) :
    (a.step t act).2.threads.Distinct ∧ t ∈ (a.step t act).2.threads.keys ∧
      ∀ u ∈ a.threads.keys, u ∈ (a.step t act).2.threads.keys := by
  have hset : ∀ (s : Slots Nat ThreadState) x, s.Distinct →
      (s.set t x).Distinct ∧ t ∈ (s.set t x).keys ∧ ∀ u ∈ s.keys, u ∈ (s.set t x).keys :=
    fun s x hs => ⟨Slots.distinct_set _ _ hs, Slots.mem_keys_set.2 (Or.inl rfl),
      fun u hu => Slots.mem_keys_set.2 (Or.inr hu)⟩
  have h₁ : (a.withThread t).threads.Distinct ∧ t ∈ (a.withThread t).threads.keys ∧
      ∀ u ∈ a.threads.keys, u ∈ (a.withThread t).threads.keys := by
    rcases threads_withThread (a := a) (t := t) with ⟨h, ht⟩ | ⟨x, h⟩
    · rw [h]
      exact ⟨hd, ht, fun _ hu => hu⟩
    · rw [h]
      exact hset _ x hd
  rw [step_eq he]
  rcases threads_perform (a := a.withThread t) t he with h | ⟨x, h⟩
  · rw [h]
    exact h₁
  · rw [h]
    obtain ⟨h1, h2, h3⟩ := hset _ x h₁.1
    exact ⟨h1, h2, fun u hu => h3 u (h₁.2.2 u hu)⟩

theorem staffed_happen (ha : a.Sound a.frames) (h : a.Staffed) {x : Happening}
    (hp : a.Admits x) : (a.happen x).Staffed := by
  cases x with
  | cut t =>
    exact h.gone (occupies_cutOff ha t) (cutOff_spec ha t).2.1.others
      (congrArg (Slots.erase t) (threads_exitRealms t _)) fun _ _ id hr => held_of_none hr id
  | act t act =>
    have ho := occupies_step ha (allowed_iff.2 hp)
    have hout : ∀ {u}, u ≠ t → ∀ key, (a.step t act).2.outlook u key = a.outlook u key :=
      (step_spec ha hp).shift.others
    by_cases he : act = .exit
    · subst he
      simp only [happen, step] at ho hout ⊢
      split at ho
      · rename_i hthere
        rw [if_pos hthere] at hout ⊢
        refine h.gone ho hout (congrArg (Slots.erase t) ?_) fun _ _ id hr => held_of_none hr id
        exact (threads_exitRealms t _).trans (threads_leaveFrames t _)
      · rename_i hthere
        rw [if_neg hthere]
        exact h
    · obtain ⟨h1, h2, h3⟩ := threads_step h.threads t he
      exact h.after ho hout h1 (fun u _ hu => h3 u hu) (Or.inl h2)

theorem staffed_through {hs : List Happening} (ha : a.Sound a.frames) (h : a.Staffed)
    (hl : a.Orderly hs) : (a.through hs).Staffed := by
  induction hs generalizing a with
  | nil => exact h
  | cons x hs ih => exact ih (sound_happen ha hl.1) (staffed_happen ha h hl.1) hl.2

theorem staffed_new (v : Option Log.Verbosity) : (Arena.new v).Staffed where
  threads := Slots.distinct_nil
  holders := fun hr => nomatch hr
  tight := fun _ _ _ hr => nomatch hr

/-- Who holds a stack of a realm, and how many stacks are live. -/
structure Occupied (a : Arena) (key : Nat) (r : Realm) : Prop where
  inside : ∀ t n, (a.step t (.currentLevel key)).1 = .level n → n ≠ 0 →
    ∃ id st, r.custody.held? t = some id ∧ r.stack? id = some st ∧ st.level = n
  live : a.threads.keys.Nodup ∧
    r.liveStacks = a.threads.keys.countP fun t => (r.custody.held? t).isSome
  released : r.options.releaseIdle = true → ∀ t n, (a.step t (.currentLevel key)).1 = .level n →
    ((r.custody.held? t).isSome ↔ n ≠ 0)
  working : r.options.releaseIdle = true →
    r.liveStacks = a.threads.keys.countP fun t => 0 < depthIn key (a.frames t)
  idle : r.options.releaseIdle = true → (∀ t, depthIn key (a.frames t) = 0) → r.liveStacks = 0

theorem held_of_level (ha : a.Sound F) (hr : a.realm? key = some r)
    (h : (a.outlook t key).level ≠ 0) :
    ∃ id st, r.custody.held? t = some id ∧ r.stack? id = some st ∧
      st.level = (a.outlook t key).level := by
  rw [outlook_some hr] at h ⊢
  cases hid : r.custody.held? t with
  | none =>
    rw [Realm.outlook_none hid] at h
    exact absurd rfl h
  | some id =>
    obtain ⟨st, hst⟩ := (ha.realms hr).stack_of_held hid
    rw [Realm.outlook_some hid hst]
    exact ⟨id, st, rfl, hst, rfl⟩

theorem held_iff (ha : a.Sound F) (h : a.Staffed) (hr : a.realm? key = some r)
    (hrel : r.options.releaseIdle = true) (t : Nat) :
    (r.custody.held? t).isSome ↔ (a.outlook t key).level ≠ 0 := by
  constructor
  · intro hsome
    obtain ⟨id, hid⟩ := Option.isSome_iff_exists.1 hsome
    rw [outlook_some hr]
    exact h.tight t key r hr hrel id hid
  · intro hlevel
    obtain ⟨id, st, hid, -⟩ := held_of_level ha hr hlevel
    rw [hid]
    rfl

theorem occupied (ha : a.Sound a.frames) (h : a.Staffed) (hr : a.realm? key = some r) :
    a.Occupied key r := by
  have hlive : r.liveStacks = a.threads.keys.countP fun t => (r.custody.held? t).isSome :=
    Realm.liveStacks_eq (ha.realms hr) h.threads fun _ _ hid => h.holders hr hid
  have hlevel : ∀ {t n}, (a.step t (.currentLevel key)).1 = .level n →
      (a.outlook t key).level = n := by
    intro t n hn
    rw [level_answer ha] at hn
    exact Ending.level.inj hn
  have hworking : r.options.releaseIdle = true →
      r.liveStacks = a.threads.keys.countP fun t => 0 < depthIn key (a.frames t) := by
    intro hrel
    rw [hlive]
    apply List.countP_congr
    intro t _
    rw [held_iff ha h hr hrel, decide_eq_true_iff, ← ha.depth, Nat.pos_iff_ne_zero]
    exact not_congr UInt32.toNat_inj.symm
  constructor
  case inside =>
    intro t n hn h0
    rw [← hlevel hn] at h0 ⊢
    exact held_of_level ha hr h0
  case live => exact ⟨h.threads, hlive⟩
  case released =>
    intro hrel t n hn
    rw [← hlevel hn]
    exact held_iff ha h hr hrel t
  case working => exact hworking
  case idle =>
    intro hrel h0
    rw [hworking hrel, List.countP_eq_zero]
    intro t _
    simp [h0 t]

/-- In every state of every run the live stacks of a realm are those that its threads hold,
inside of scopes every thread has one, and where idle stacks are released only there. No
question gives a thread a stack, in whatever state it is asked. -/
theorem stacks_held (v : Option Log.Verbosity) :
    (∀ hs, (Arena.new v).Orderly hs → ∀ key r, ((Arena.new v).through hs).realm? key = some r →
      ((Arena.new v).through hs).Occupied key r) ∧
    ∀ (s : Session) (t key : Nat) (q : Session.RealmStep), q.asks = true →
      ∀ k u id, (s.answer ⟨t, .realm key q⟩).2.arena.held? k u = some id →
        s.arena.held? k u = some id := by
  constructor
  · intro hs hl key r hr
    exact occupied (sound_through (sound_new v) hl)
      (staffed_through (sound_new v) (staffed_new v) hl) hr
  · intro s t key q hq
    exact Session.holdsNoMore_answer s t key hq

def comings : List Happening :=
  [.act 0 (.createRealm 0 { releaseIdle := true, maxDepth := 1 }), .act 0 (.register "Base" ⟨0⟩),
   .act 0 (.enter 0 []), .act 0 .exit, .act 1 (.setFault .methods ⟨1⟩ true),
   .act 1 (.enter 0 [⟨1⟩]), .act 2 (.enter 0 []), .act 2 (.enter 0 []), .act 3 (.requestReclaim 0),
   .act 3 (.lookup 0 "f")]

theorem stacks_comings :
    ∃ r, ((Arena.new none).through comings).realm? 0 = some r ∧ r.liveStacks = 1 ∧
      (r.custody.held? 2).isSome ∧ ¬ (r.custody.held? 1).isSome := by
  have hr : (((Arena.new none).through comings).realm? 0).isSome = true := by decide +kernel
  obtain ⟨r, hr⟩ := Option.isSome_iff_exists.1 hr
  have h := (stacks_held none).1 comings (by decide +kernel) 0 r hr
  have hrel : r.options.releaseIdle = true := by
    have ho : ((((Arena.new none).through comings).realm? 0).map fun r => r.options.releaseIdle) =
        some true := by decide +kernel
    rw [hr] at ho
    exact Option.some.inj ho
  have ha : ((Arena.new none).through comings).Sound _ :=
    sound_through (sound_new none) (by decide +kernel)
  refine ⟨r, hr, ?_, ?_, ?_⟩
  · rw [h.working hrel]
    decide +kernel
  · rw [h.released hrel 2 _ (level_answer ha 2 0)]
    decide +kernel
  · rw [h.released hrel 1 _ (level_answer ha 1 0)]
    decide +kernel

end ScopedMethods.Arena
