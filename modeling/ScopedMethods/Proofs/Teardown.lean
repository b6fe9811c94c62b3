import ScopedMethods.Proofs.Attempts
import ScopedMethods.Proofs.Routines

/-!
# Scopes restore what they found

While a scope is open, leaving as many scopes as were entered since gives back
the outlook from before it; nested scopes, entries that are refused or broken off
and acts of other threads keep this so. When the scope ends, in whatever way, the
thread sees what it saw, and if it was alone the books are as they were. A call that
runs a body in a scope ends in the state that entering, what the body does and
leaving come to.
-/

set_option autoImplicit false

namespace ScopedMethods.Arena

def Occurrence.Spares (t : Nat) : Occurrence → Prop
  | .attempt _ _ => True
  | .cut u => u ≠ t

instance (t : Nat) : (o : Occurrence) → Decidable (o.Spares t)
  | .attempt _ _ => .isTrue trivial
  | .cut u => inferInstanceAs (Decidable (¬ u = t))

def Stays (t n : Nat) : Arena → List Occurrence → Prop
  | _, [] => True
  | a, o :: rest =>
    o.Spares t ∧ n ≤ ((a.occur o).frames t).length ∧ Stays t n (a.occur o) rest

/-- A thread is inside of further scopes over some, and leaving them all gives
the outlooks that go with those. -/
def Nested (t : Nat) (base : List Frame) (seen : Nat → Outlook) (a : Arena) : Prop :=
  ∃ inner, a.frames t = inner ++ base ∧
    ∀ key, Outlook.leave^[depthIn key inner] (a.outlook t key) = seen key

variable {a a' : Arena} {t u n : Nat} {o : Occurrence} {base : List Frame} {seen : Nat → Outlook}

instance decidableStays (t n : Nat) (a : Arena) :
    (os : List Occurrence) → Decidable (Stays t n a os)
  | [] => .isTrue trivial
  | o :: rest =>
    have := decidableStays t n (a.occur o) rest
    inferInstanceAs (Decidable (o.Spares t ∧ n ≤ ((a.occur o).frames t).length ∧
      Stays t n (a.occur o) rest))

theorem depthIn_append (key : Nat) (fs gs : List Frame) :
    depthIn key (fs ++ gs) = depthIn key fs + depthIn key gs := by
  simp [depthIn]

theorem nested_self (a : Arena) (t : Nat) : Nested t (a.frames t) (a.outlook t) a :=
  ⟨[], rfl, fun _ => rfl⟩

theorem Nested.entered (hn : Nested t base seen a) {key id : Nat} {types : List TypeId}
    {tree : TypeTree} (hf : a'.frames t = ⟨key, id⟩ :: a.frames t)
    (hover : (a.outlook t key).Over tree types (a'.outlook t key))
    (hk : ∀ k, k ≠ key → a'.outlook t k = a.outlook t k) : Nested t base seen a' := by
  obtain ⟨inner, hb, ho⟩ := hn
  refine ⟨⟨key, id⟩ :: inner, by rw [hf, hb, List.cons_append], fun k => ?_⟩
  rw [depthIn_cons]
  by_cases hkk : key = k
  · subst hkk
    rw [if_pos rfl, Function.iterate_succ_apply, hover.leave, ho]
  · rw [if_neg hkk, Nat.add_zero, hk k (Ne.symm hkk), ho]

theorem Nested.left (hn : Nested t base seen a) {m : Nat}
    (hf : a'.frames t = (a.frames t).drop m)
    (hk : ∀ k, a'.outlook t k = Outlook.leave^[depthIn k ((a.frames t).take m)] (a.outlook t k))
    (hlen : base.length ≤ (a'.frames t).length) : Nested t base seen a' := by
  obtain ⟨inner, hb, ho⟩ := hn
  -- More may be left than is above the base only where the base is empty.
  have hbase : base.drop (m - inner.length) = base ∧ base.take (m - inner.length) = [] := by
    rw [hf, hb, List.drop_append, List.length_append, List.length_drop, List.length_drop] at hlen
    rcases Nat.eq_zero_or_pos (m - inner.length) with h0 | hpos
    · rw [h0]
      exact ⟨rfl, rfl⟩
    · have hnil : base = [] := List.length_eq_zero_iff.1 (by omega)
      rw [hnil]
      simp
  have hsplit : inner = inner.take m ++ inner.drop m := (List.take_append_drop m inner).symm
  refine ⟨inner.drop m, ?_, fun k => ?_⟩
  · rw [hf, hb, List.drop_append, hbase.1]
  · rw [hk, hb, List.take_append, hbase.2, List.append_nil, ← Function.iterate_add_apply,
      Nat.add_comm, ← depthIn_append, ← hsplit, ho]

theorem Nested.others (hn : Nested t base seen a) (hf : a'.frames t = a.frames t)
    (ho : ∀ k, a'.outlook t k = a.outlook t k) : Nested t base seen a' := by
  obtain ⟨inner, hb, hi⟩ := hn
  exact ⟨inner, by rw [hf, hb], fun k => by rw [ho, hi]⟩

theorem nested_occur (ha : a.Sound a.frames) (hn : Nested t base seen a) (hp : a.Tolerates o)
    (hs : o.Spares t) (hlen : base.length ≤ ((a.occur o).frames t).length) :
    Nested t base seen (a.occur o) := by
  cases o with
  | attempt u x =>
    have hx := attempt_spec ha hp
    by_cases hu : t = u
    · subst hu
      rcases hx.change with ⟨key, types, id, -, -, hf, hover, hk⟩ | ⟨-, hf, hk⟩
      · exact hn.entered hf hover hk
      · exact hn.left hf hk hlen
    · exact hn.others (hx.others t hu) fun k => hx.shift.others hu k
  | cut u =>
    have hu : t ≠ u := Ne.symm hs
    obtain ⟨-, hshift, -, hf⟩ := cutOff_spec ha u
    refine hn.others ?_ fun k => hshift.others hu k
    rw [show (a.occur (.cut u)).frames = _ from hf, Function.update_of_ne hu]

theorem nested_pass {os : List Occurrence} (ha : a.Sound a.frames) (hn : Nested t base seen a)
    (hl : a.Regular os) (hs : Stays t base.length a os) : Nested t base seen (a.pass os) := by
  induction os generalizing a with
  | nil => exact hn
  | cons o os ih =>
    exact ih (sound_occur ha hl.1) (nested_occur ha hn hl.1 hs.1 hs.2.1) hl.2 hs.2.2

/-- A run that ends with as many scopes as it began with, and never has fewer. -/
theorem outlook_restored {os : List Occurrence} (ha : a.Sound a.frames) (hl : a.Regular os)
    (hs : Stays t (a.frames t).length a os)
    (hend : ((a.pass os).frames t).length = (a.frames t).length) :
    (a.pass os).frames t = a.frames t ∧
      ∀ key, (a.pass os).outlook t key = a.outlook t key := by
  obtain ⟨inner, hf, ho⟩ := nested_pass ha (nested_self a t) hl hs
  have hnil : inner = [] := by
    rw [hf, List.length_append] at hend
    exact List.length_eq_zero_iff.1 (by omega)
  subst hnil
  exact ⟨hf, ho⟩

theorem shift_pass {os : List Occurrence} (ha : a.Sound a.frames) (hl : a.Regular os)
    (ht : ∀ o ∈ os, o.thread = t) : Shift t a (a.pass os) := by
  induction os generalizing a with
  | nil => exact .refl t a
  | cons o os ih =>
    have hs := shift_occur ha hl.1
    rw [ht o List.mem_cons_self] at hs
    exact hs.trans (ih (sound_occur ha hl.1) hl.2 fun x hx => ht x (List.mem_cons_of_mem _ hx))

theorem stays_mono {os : List Occurrence} {m : Nat} (hs : Stays t n a os) (hm : m ≤ n) :
    Stays t m a os := by
  induction os generalizing a with
  | nil => trivial
  | cons o os ih => exact ⟨hs.1, hm.trans hs.2.1, ih hs.2.2⟩

theorem stays_append {os rest : List Occurrence} (hs : Stays t n a os)
    (hr : Stays t n (a.pass os) rest) : Stays t n a (os ++ rest) := by
  induction os generalizing a with
  | nil => exact hr
  | cons o os ih => exact ⟨hs.1, hs.2.1, ih hs.2.2 hr⟩

/-- A thread is inside of the same scopes, at the same levels, and finds the very same chains. -/
structure Restored (t : Nat) (a a' : Arena) : Prop where
  frames : a'.frames t = a.frames t
  level : ∀ key, (a'.step t (.currentLevel key)).1 = (a.step t (.currentLevel key)).1
  lookup : ∀ key name, (a'.step t (.lookup key name)).1 = (a.step t (.lookup key name)).1
  chains : ∀ key name id, (a.step t (.lookup key name)).1 = .chain (some id) →
    a'.store.chain id = a.store.chain id

structure Balanced (a a' : Arena) : Prop where
  usage : ∀ key name, a'.usageCount key name = a.usageCount key name
  active : ∀ key, a'.active key = a.active key

theorem restored_of_outlook (ha : a.Sound a.frames) (ha' : a'.Sound a'.frames)
    (hf : a'.frames t = a.frames t) (ho : ∀ key, a'.outlook t key = a.outlook t key) :
    Restored t a a' where
  frames := hf
  level := fun key => by rw [level_answer ha, level_answer ha', ho]
  lookup := fun key name => by rw [lookup_answer ha, lookup_answer ha', ho]
  chains := by
    intro key name id hid
    rw [lookup_answer ha] at hid
    cases hl : (a.outlook t key).lineage name with
    | nil =>
      rw [hl] at hid
      cases hid
    | cons p below =>
      have hp : p ∈ (a.outlook t key).lineage name := by
        rw [hl]
        exact List.mem_cons_self
      have h1 := (chain_of_outlook ha hp).1
      rw [← ho] at hp
      have h2 := (chain_of_outlook ha' hp).1
      rw [hl] at hid
      obtain rfl : p.1 = id := Option.some.inj (Ending.chain.inj hid)
      rw [h1, h2]

theorem balanced_of_shift (ha : a.Sound a.frames) (ha' : a'.Sound a'.frames) (h : Shift t a a')
    (ho : ∀ key, a'.outlook t key = a.outlook t key) : Balanced a a' where
  usage := by
    intro key name
    have hn := h.inEffect key name
    rw [ho] at hn
    rw [usageCount_eq ha, usageCount_eq ha', Nat.add_right_cancel hn]
  active := by
    intro key
    have hn := h.openScopes key
    rw [ho] at hn
    rw [active_eq ha, active_eq ha', Nat.add_right_cancel hn]

theorem still_restores (ha : a.Sound a.frames) (hc : a'.Sound a'.frames) (h : Still t a a')
    (hf : a'.frames t = a.frames t) : Restored t a a' ∧ Balanced a a' :=
  ⟨restored_of_outlook ha hc hf h.same, balanced_of_shift ha hc h.shift h.same⟩

theorem refused_restores (ha : a.Sound a.frames) {x : Attempt} {key : Nat} {types : List TypeId}
    (hx : x.meant = .enter key types) (hp : a.Permits t x.meant)
    (he : (a.attempt t x).1 ≠ .entered) :
    Restored t a (a.attempt t x).2 ∧ Balanced a (a.attempt t x).2 := by
  have hs := attempt_spec ha hp
  rcases hs.change with ⟨_, _, _, _, h, _, _, _⟩ | ⟨-, hf, ho⟩
  · exact absurd h he
  · rw [hx] at hf ho
    exact still_restores ha hs.sound ⟨hs.shift, ho⟩ hf

/-- A body in a scope that was entered: it may do what it likes as long as it does not
leave the scope before its last act. -/
theorem body_restores (ha : a.Sound a.frames) {key : Nat} {types : List TypeId}
    (hp : a.Permits t (.enter key types)) (he : (a.step t (.enter key types)).1 = .entered)
    {body : List Occurrence} {last : Act}
    (hb : (a.step t (.enter key types)).2.Regular (body ++ [.attempt t (.act last)]))
    (hs : Stays t ((a.frames t).length + 1) (a.step t (.enter key types)).2 body)
    (hend : (((a.step t (.enter key types)).2.pass
      (body ++ [.attempt t (.act last)])).frames t).length = (a.frames t).length) :
    Restored t a ((a.step t (.enter key types)).2.pass (body ++ [.attempt t (.act last)])) ∧
      ((∀ o ∈ body, o.thread = t) →
        Balanced a ((a.step t (.enter key types)).2.pass (body ++ [.attempt t (.act last)]))) := by
  have hlaw : a.Regular
      (.attempt t (.act (.enter key types)) :: (body ++ [.attempt t (.act last)])) := ⟨hp, hb⟩
  have hstays : Stays t (a.frames t).length a
      (.attempt t (.act (.enter key types)) :: (body ++ [.attempt t (.act last)])) := by
    refine ⟨trivial, ?_, ?_⟩
    · rcases (step_spec ha hp).change with ⟨_, _, _, _, _, hf, _, _⟩ | ⟨h, _, _⟩
      · show (a.frames t).length ≤ ((a.step t (.enter key types)).2.frames t).length
        rw [hf]
        exact Nat.le_succ _
      · exact absurd he h
    · have h := hend
      rw [pass_append] at h
      exact stays_append (stays_mono hs (Nat.le_succ _)) ⟨trivial, h.ge, trivial⟩
  obtain ⟨hf, ho⟩ := outlook_restored ha hlaw hstays hend
  have hc := sound_pass ha hlaw
  refine ⟨restored_of_outlook ha hc hf ho, fun ht => balanced_of_shift ha hc ?_ ho⟩
  refine shift_pass ha hlaw fun o hm => ?_
  rcases List.mem_cons.1 hm with rfl | hm
  · rfl
  · rcases List.mem_append.1 hm with hm | hm
    · exact ht o hm
    · rw [List.mem_singleton.1 hm]
      rfl

/-- A thread runs a body in a scope of a realm, the entry of which may be broken off. -/
def call {α : Type} (a : Arena) (t key : Nat) (types : List TypeId)
    (stop : Option (Nat × Failure)) (body : Realm → Store → Except Failure α × Realm × Store) :
    Except Failure α × Arena :=
  (a.withThread t).inRealm t key fun r s =>
    r.withinUpTo a.catalog (a.caller t) types stop body s

def Shows (a : Arena) (key : Nat) (r : Realm) (s : Store) : Prop :=
  a.realm? key = some r ∧ a.store = s

def verdictUpTo (a : Arena) (t key : Nat) (types : List TypeId) (stop : Option (Nat × Failure)) :
    Except Failure Unit :=
  (a.outlook t key).verdictUpTo a.catalog (a.options key).maxDepth a.store.traced types stop

section Calls

variable {α : Type} {key : Nat} {types : List TypeId}
  {body : Realm → Store → Except Failure α × Realm × Store}

theorem shows_setRealm (key : Nat) (r : Realm) (s : Store) : (a.setRealm key r s).Shows key r s :=
  ⟨(realm?_setRealm key).trans (if_pos rfl), rfl⟩

theorem caller_withThread (a : Arena) (t : Nat) : (a.withThread t).caller t = a.caller t := by
  rw [withThread]
  split
  · rfl
  · rename_i h
    have hn : a.threads.get? t = none := by simpa [Slots.contains] using h
    simp [caller, thread, setThread, hn, Slots.get?_set]

theorem host_refused {g : Realm → Store → Except Failure Nat × Realm × Store} (c : Caller)
    {f : Failure} (h : (a.enterBy t key g).1 = .refused f) :
    a.inRealm t key (fun r s => Realm.host c body (g r s)) =
      (.error f, (a.enterBy t key g).2) := by
  simp only [enterBy, inRealm] at h ⊢
  generalize g (a.obtainRealm t key).1 (a.obtainRealm t key).2.store = o at h ⊢
  obtain ⟨result, r₁, s₁⟩ := o
  cases result with
  | error e =>
    obtain rfl := Ending.refused.inj h
    rfl
  | ok id => cases h

theorem host_entered {g : Realm → Store → Except Failure Nat × Realm × Store} (c : Caller)
    (body : Realm → Store → Except Failure α × Realm × Store)
    (h : (a.enterBy t key g).1 = .entered) :
    ∃ id r₁ s₁, (a.enterBy t key g).2.Shows key r₁ s₁ ∧
      ((a.enterBy t key g).2.thread t).frames.head? = some ⟨key, id⟩ ∧
      (a.enterBy t key g).2.caller t = a.caller t ∧
      (a.inRealm t key fun r s => Realm.host c body (g r s)).1 = (body r₁ s₁).1 ∧
      (a.inRealm t key fun r s => Realm.host c body (g r s)).2.Shows key
        ((body r₁ s₁).2.1.leave c id (body r₁ s₁).2.2).1
        ((body r₁ s₁).2.1.leave c id (body r₁ s₁).2.2).2 := by
  simp only [enterBy, inRealm] at h ⊢
  generalize g (a.obtainRealm t key).1 (a.obtainRealm t key).2.store = o at h ⊢
  obtain ⟨result, r₁, s₁⟩ := o
  cases result with
  | error e => cases h
  | ok id =>
    refine ⟨id, r₁, s₁, shows_setRealm key r₁ s₁, ?_, ?_, rfl, shows_setRealm key _ _⟩
    · simp [setFrames, thread, setThread, Slots.get?_set]
    · have hthreads : (a.obtainRealm t key).2.threads = a.threads := by
        rw [obtainRealm]
        cases a.realm? key <;> rfl
      simp [setFrames, caller, thread, setThread, setRealm, Slots.get?_set, hthreads]

theorem shows_leave {c : Arena} {id : Nat} (hf : (c.thread t).frames.head? = some ⟨key, id⟩)
    {r : Realm} {s : Store} (hs : c.Shows key r s) :
    (c.step t .leave).2.Shows key (r.leave (c.caller t) id s).1 (r.leave (c.caller t) id s).2 ∧
      (c.step t (.raise 1)).2.Shows key (r.leave (c.caller t) id s).1
        (r.leave (c.caller t) id s).2 := by
  obtain ⟨hr, rfl⟩ := hs
  obtain ⟨fs, hfs⟩ : ∃ fs, (c.thread t).frames = ⟨key, id⟩ :: fs := List.head?_eq_some_iff.1 hf
  have hthere : c.threads.contains t = true := by
    rw [Slots.contains]
    cases hn : c.threads.get? t with
    | none =>
      rw [thread, hn] at hfs
      cases hfs
    | some x => rfl
  have hw : c.withThread t = c := by rw [withThread, if_pos hthere]
  have hleft : (c.leaveFrame t ⟨key, id⟩).Shows key (r.leave (c.caller t) id c.store).1
      (r.leave (c.caller t) id c.store).2 := by
    rw [leaveFrame]
    simp only [hr]
    exact shows_setRealm key _ _
  constructor
  · simp only [step, hw, perform, hfs]
    exact hleft
  · simp only [step, hw, perform, raise, hfs]
    exact hleft

theorem attempt_entry (a : Arena) (t key : Nat) (types : List TypeId)
    (stop : Option (Nat × Failure)) :
    a.attempt t (.entry key types stop) = (a.withThread t).enterBy t key
      fun r s => r.enterUpTo a.catalog (a.caller t) types stop s := by
  rw [← caller_withThread a t, ← catalog_withThread (a := a) (t := t)]
  cases stop <;> rfl

theorem call_eq (a : Arena) (t key : Nat) (types : List TypeId) (stop : Option (Nat × Failure))
    (body : Realm → Store → Except Failure α × Realm × Store) :
    a.call t key types stop body = (a.withThread t).inRealm t key fun r s =>
      Realm.host (a.caller t) body (r.enterUpTo a.catalog (a.caller t) types stop s) := by
  simp only [call, Realm.withinUpTo_eq]

theorem call_refused {stop : Option (Nat × Failure)} {f : Failure}
    (h : (a.attempt t (.entry key types stop)).1 = .refused f) :
    a.call t key types stop body = (.error f, (a.attempt t (.entry key types stop)).2) := by
  rw [call_eq]
  rw [attempt_entry] at h ⊢
  exact host_refused _ h

/-- A call that comes to its body ends as the acts of entering and leaving do, with what the
body does between them. -/
theorem call_entered (h : (a.step t (.enter key types)).1 = .entered)
    (body : Realm → Store → Except Failure α × Realm × Store) :
    ∃ r s, (a.step t (.enter key types)).2.Shows key r s ∧
      (a.call t key types none body).1 = (body r s).1 ∧
      ∀ c : Arena, c.thread t = (a.step t (.enter key types)).2.thread t →
        c.Shows key (body r s).2.1 (body r s).2.2 →
        ∃ r' s', (a.call t key types none body).2.Shows key r' s' ∧
          (c.step t .leave).2.Shows key r' s' ∧ (c.step t (.raise 1)).2.Shows key r' s' := by
  have hstep : a.step t (.enter key types) = _ := attempt_entry a t key types none
  rw [hstep] at h ⊢
  obtain ⟨id, r, s, hshows, hframe, hcaller, hresult, hend⟩ :=
    host_entered (a.caller t) body h
  rw [call_eq]
  refine ⟨r, s, hshows, hresult, fun c hc hcs => ⟨_, _, hend, ?_⟩⟩
  rw [← hc] at hframe
  have hsame : c.caller t = a.caller t := by
    rw [caller, hc]
    exact hcaller.trans (caller_withThread a t)
  have hleft := shows_leave hframe hcs
  rwa [hsame] at hleft

theorem entry_answer (ha : a.Sound a.frames) (hp : a.Permits t (.enter key types))
    (stop : Option (Nat × Failure)) : (a.attempt t (.entry key types stop)).1 =
      match a.verdictUpTo t key types stop with
      | .error f => .refused f
      | .ok () => .entered := by
  cases stop with
  | none => exact enter_answer ha types hp
  | some p => exact (broken_spec ha p.1 p.2 hp).1

theorem meant_entry (key : Nat) (types : List TypeId) (stop : Option (Nat × Failure)) :
    (Attempt.entry key types stop).meant = .enter key types := by
  cases stop <;> rfl

/-- A routine that is called in a scope leaves no trace, whether the scope is entered or not. -/
theorem call_restores (ha : a.Sound a.frames) (stop : Option (Nat × Failure)) (b : Routine α)
    {n : Nat} (hn : b.Nests n)
    (hl : (a.options key).maxDepth = 0 → depthIn key (a.frames t) + 1 + n < 2 ^ 32) :
    Restored t a (a.call t key types stop (b.run (a.caller t))).2 ∧
      Balanced a (a.call t key types stop (b.run (a.caller t))).2 := by
  obtain ⟨h1, h2⟩ := still_withThread ha t
  obtain ⟨g1, -, -, hr⟩ := obtainRealm_spec h1 t key
  obtain ⟨hoptions, hdepth⟩ := obtained_depth h1 t key
  rw [options_withThread] at hoptions
  have hq := Realm.quiet_withinUpTo (t := a.caller t) (g1.realms hr) a.catalog types stop
    (b.run (a.caller t)) (n := n) (by
      rw [hoptions, show (a.caller t).thread = t from rfl, hdepth]
      exact hl)
    fun hr₁ hl₁ => Realm.quiet_run hr₁ b hn (a.caller t) hl₁
  obtain ⟨i1, i2, i3⟩ := inRealm_quiet h1 t key hq
  have hf : ∀ u, (a.call t key types stop (b.run (a.caller t))).2.frames u = a.frames u :=
    fun u => (i3.frames u).trans (frames_withThread u)
  refine still_restores ha ?_ (h2.trans i2) (hf t)
  rw [show (a.call t key types stop (b.run (a.caller t))).2.frames = a.frames from funext hf]
  exact i1

end Calls

/-- A scope is refused, with the failure of the depth check or of the first query that fails,
whatever query that is; or it ends when the thread is back in the scopes that it was in. Either
way it leaves no trace. A call that runs a body in the scope ends with that failure, and the
body is not run, or it gives the result of the body and ends where leaving the scope does. -/
theorem scope_leaves_no_trace (v : Option Log.Verbosity) (os : List Occurrence)
    (hl : (Arena.new v).Regular os) (t key : Nat) (types : List TypeId)
    (hp : ((Arena.new v).pass os).Permits t (.enter key types)) :
    let a := (Arena.new v).pass os
    let b := (a.step t (.enter key types)).2
    (∀ stop f, a.verdictUpTo t key types stop = .error f →
      let x := a.attempt t (.entry key types stop)
      x.1 = .refused f ∧ Restored t a x.2 ∧ Balanced a x.2 ∧
      ∀ (α : Type) (body : Realm → Store → Except Failure α × Realm × Store),
        a.call t key types stop body = (.error f, x.2)) ∧
    (a.verdictUpTo t key types none = .ok () → (a.step t (.enter key types)).1 = .entered ∧
      (∀ (body : List Occurrence) (last : Act), b.Regular (body ++ [.attempt t (.act last)]) →
        Stays t ((a.frames t).length + 1) b body →
        ((b.pass (body ++ [.attempt t (.act last)])).frames t).length = (a.frames t).length →
          Restored t a (b.pass (body ++ [.attempt t (.act last)])) ∧
          ((∀ o ∈ body, o.thread = t) →
            Balanced a (b.pass (body ++ [.attempt t (.act last)])))) ∧
      ∀ (α : Type) (body : Realm → Store → Except Failure α × Realm × Store),
        ∃ r s, b.Shows key r s ∧ (a.call t key types none body).1 = (body r s).1 ∧
          ∀ c : Arena, c.thread t = b.thread t → c.Shows key (body r s).2.1 (body r s).2.2 →
            ∃ r' s', (a.call t key types none body).2.Shows key r' s' ∧
              (c.step t .leave).2.Shows key r' s' ∧ (c.step t (.raise 1)).2.Shows key r' s') ∧
    (∀ (α : Type) (stop : Option (Nat × Failure)) (body : Routine α) (n : Nat), body.Nests n →
      ((a.options key).maxDepth = 0 → depthIn key (a.frames t) + 1 + n < 2 ^ 32) →
        Restored t a (a.call t key types stop (body.run (a.caller t))).2 ∧
        Balanced a (a.call t key types stop (body.run (a.caller t))).2) := by
  intro a b
  have ha : a.Sound a.frames := sound_pass (sound_new v) hl
  refine ⟨fun stop f hv => ?_, fun hv => ?_, fun α stop body n hn hb => ?_⟩
  · have he := entry_answer ha hp stop
    rw [hv] at he
    obtain ⟨h1, h2⟩ := refused_restores ha (meant_entry key types stop)
      (by rw [meant_entry]; exact hp) (by rw [he]; exact fun h => nomatch h)
    exact ⟨he, h1, h2, fun α body => call_refused he⟩
  · have he := entry_answer ha hp none
    rw [hv] at he
    exact ⟨he, fun body last => body_restores ha hp he, fun α body => call_entered he body⟩
  · exact call_restores ha stop body hn hb

def openScope : List Occurrence :=
  [.attempt 0 (.act (.register "Base" ⟨0⟩)),
   .attempt 0 (.act (.declare ⟨1⟩ ⟨"f", [⟨1⟩], true, true, none⟩)),
   .attempt 0 (.act (.enter 0 [⟨1⟩]))]

def toldOnce : Attempt := .broken 0 [⟨1⟩, ⟨1⟩] 8 (.raised "methods fault 1")

def failingBody : List Occurrence :=
  [.attempt 0 toldOnce, .attempt 0 (.act (.setFault .methods ⟨1⟩ true)),
   .attempt 0 (.act (.enter 0 [⟨1⟩])), .attempt 0 (.act (.lookup 0 "f"))]

def persisting (c : Catalog) : Routine Nat :=
  .opens c [⟨1⟩] (some (3, .raised "methods fault 1")) (.ends (.ok 1)) fun _ =>
    .asks (.lookup "f") fun _ => .ends (.error (.raised "thrown"))

/-- Among others, an entry ends where the second of two methods of one name is compared with
the first. -/
theorem failingBody_leaves_no_trace :
    let a := (Arena.new none).pass openScope
    let c := (a.step 0 (.enter 0 [⟨1⟩])).2.pass (failingBody ++ [.attempt 0 (.act (.raise 1))])
    let x := a.attempt 0 (.entry 0 [⟨1⟩, ⟨1⟩] (some (9, .raised "parent fault 1")))
    let d := (a.call 0 0 [⟨1⟩] none ((persisting a.catalog).run (a.caller 0))).2
    (Restored 0 a c ∧ Balanced a c) ∧ (Restored 0 a x.2 ∧ Balanced a x.2) ∧
      Restored 0 a d ∧ Balanced a d := by
  obtain ⟨-, h, hcall⟩ := scope_leaves_no_trace none openScope (by decide +kernel) 0 0 [⟨1⟩]
    (by decide +kernel)
  obtain ⟨hbroken, -⟩ := scope_leaves_no_trace none openScope (by decide +kernel) 0 0 [⟨1⟩, ⟨1⟩]
    (by decide +kernel)
  obtain ⟨-, h, -⟩ := h (by decide +kernel)
  obtain ⟨hr, hb⟩ := h failingBody (.raise 1) (by decide +kernel) (by decide +kernel)
    (by decide +kernel)
  obtain ⟨-, hx, hx', -⟩ := hbroken (some (9, .raised "parent fault 1")) (.raised "parent fault 1")
    (by decide +kernel)
  refine ⟨⟨hr, hb (by decide)⟩, ⟨hx, hx'⟩, hcall Nat none _ 1 ?_ (by decide +kernel)⟩
  exact ⟨Nat.one_pos, trivial, fun _ _ => trivial⟩

end ScopedMethods.Arena
