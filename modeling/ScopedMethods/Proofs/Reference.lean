import ScopedMethods.Proofs.Answers

/-!
# Look-up recomputed

What a thread laid in the scopes that it is inside of is recorded along a run,
with the tree as it stood at each entry. The candidates that a look-up finds
are those of the record, each put in its place one after another.
-/

set_option autoImplicit false

namespace ScopedMethods

structure Laying where
  realm : Nat
  tree : TypeTree
  types : List TypeId

namespace Laying

def offers (name : String) (l : Laying) : List Candidate :=
  ((l.tree.laid l.types).filter (·.name = name)).map Candidate.ofMethod

/-- The candidates under a name in nested scopes, the innermost scope first. -/
def reference (name : String) : List Laying → List Candidate
  | [] => []
  | l :: outer => (l.offers name).foldl (fun es m => l.tree.insert m es) (reference name outer)

def inRealm (key : Nat) (ls : List Laying) : List Laying := ls.filter (·.realm = key)

theorem offers_eq_nil {name : String} {l : Laying} :
    l.offers name = [] ↔ ∀ m ∈ l.tree.laid l.types, m.name ≠ name := by
  simp [offers]

theorem inRealm_cons_self (l : Laying) (ls : List Laying) :
    inRealm l.realm (l :: ls) = l :: inRealm l.realm ls := by
  simp [inRealm]

theorem inRealm_cons_of_ne {key : Nat} {l : Laying} (h : l.realm ≠ key) (ls : List Laying) :
    inRealm key (l :: ls) = inRealm key ls := by
  simp [inRealm, h]

theorem inRealm_drop (key n : Nat) (ls : List Laying) :
    inRealm key (ls.drop n) = (inRealm key ls).drop ((ls.take n).countP (·.realm = key)) := by
  induction ls generalizing n with
  | nil => simp [inRealm]
  | cons l ls ih =>
    cases n with
    | zero => simp
    | succ n =>
      rw [List.drop_succ_cons, ih, List.take_succ_cons]
      by_cases hk : l.realm = key
      · subst hk
        simp [inRealm_cons_self]
      · simp [inRealm_cons_of_ne hk, hk]

end Laying

namespace Outlook

/-- An outlook that scopes built up, the innermost first. -/
def Built : Outlook → List Laying → Prop
  | o, [] => o = idle
  | o, l :: outer => ∃ o₀ : Outlook, o₀.Over l.tree l.types o ∧ Built o₀ outer

theorem built_leave {o : Outlook} {l : Laying} {outer : List Laying} (h : o.Built (l :: outer)) :
    o.leave.Built outer := by
  obtain ⟨o₀, ho, hb⟩ := h
  rw [ho.leave]
  exact hb

theorem built_drop {o : Outlook} {ls : List Laying} {n : Nat} (h : o.Built ls)
    (hn : n ≤ ls.length) : Built (Outlook.leave^[n] o) (ls.drop n) := by
  induction n generalizing o ls with
  | zero => exact h
  | succ n ih =>
    cases ls with
    | nil => simp at hn
    | cons l ls =>
      rw [Function.iterate_succ_apply]
      exact ih (built_leave h) (Nat.le_of_succ_le_succ hn)

theorem grown_entries (tree : TypeTree) (level : Level) (ms : List Method) (name : String)
    (l : Ladder) :
    (Site.grown tree level ms name l).entries =
      ((ms.filter (·.name = name)).map Candidate.ofMethod).foldl
        (fun es m => tree.insert m es) l.entries := by
  rw [Site.grown]
  induction ms.filter (·.name = name) generalizing l with
  | nil => rfl
  | cons m ms ih =>
    simp only [List.foldl_cons, List.map_cons]
    rw [ih, Ladder.entries_add]

theorem add_ne_nil (tree : TypeTree) (level : Level) (new : Candidate) (l : Ladder) :
    l.add tree level new ≠ [] := by
  cases l with
  | nil => simp [Ladder.add]
  | cons r below =>
    simp only [Ladder.add]
    split <;> simp

theorem grown_eq_nil (tree : TypeTree) (level : Level) (ms : List Method) (name : String)
    (l : Ladder) :
    Site.grown tree level ms name l = [] ↔ l = [] ∧ ms.filter (·.name = name) = [] := by
  rw [Site.grown]
  induction ms.filter (·.name = name) generalizing l with
  | nil => simp
  | cons m ms ih =>
    rw [List.foldl_cons, ih]
    simp [add_ne_nil]

theorem built_entries {o : Outlook} {ls : List Laying} (h : o.Built ls) (name : String) :
    (o.lineage name).entries = Laying.reference name ls := by
  induction ls generalizing o with
  | nil =>
    rw [show o = idle from h]
    rfl
  | cons l outer ih =>
    obtain ⟨o₀, ho, hb⟩ := h
    rw [← Lineage.entries_ladder, ho.ladder, grown_entries, Lineage.entries_ladder, ih hb]
    rfl

theorem built_eq_nil {o : Outlook} {ls : List Laying} (h : o.Built ls) (name : String) :
    o.lineage name = [] ↔ ∀ l ∈ ls, l.offers name = [] := by
  induction ls generalizing o with
  | nil =>
    rw [show o = idle from h]
    simp [idle]
  | cons l outer ih =>
    obtain ⟨o₀, ho, hb⟩ := h
    have hnil : ∀ x : Lineage, x.ladder = [] ↔ x = [] := fun x => by simp [Lineage.ladder]
    rw [← hnil, ho.ladder, grown_eq_nil, hnil, ih hb, List.forall_mem_cons, Laying.offers,
      List.map_eq_nil_iff, and_comm]

end Outlook

namespace Arena

def recorded (tree : TypeTree) (ls : List Laying) : Act → Ending → List Laying
  | .enter key types, .entered => ⟨key, tree, types⟩ :: ls
  | act, _ => ls.drop (act.leaving ls.length)

def record (a : Arena) (t : Nat) (act : Act) (ls : List Laying) : List Laying :=
  recorded a.catalog.tree ls act (a.step t act).1

def layings (a : Arena) (ls : Nat → List Laying) : List (Nat × Act) → Nat → List Laying
  | [] => ls
  | (t, act) :: rest =>
    layings (a.step t act).2 (Function.update ls t (a.record t act (ls t))) rest

/-- The record names the scopes that threads are inside of, and they built what is seen. -/
structure Recorded (a : Arena) (ls : Nat → List Laying) : Prop where
  frames : ∀ t, (ls t).map Laying.realm = (a.frames t).map Frame.realm
  built : ∀ t key, (a.outlook t key).Built (Laying.inRealm key (ls t))

variable {a : Arena} {ls : Nat → List Laying} {t : Nat} {act : Act}

theorem Recorded.length (hr : a.Recorded ls) (t : Nat) : (ls t).length = (a.frames t).length := by
  simpa using congrArg List.length (hr.frames t)

theorem recorded_new (v : Option Log.Verbosity) : (Arena.new v).Recorded fun _ => [] :=
  ⟨fun _ => rfl, fun _ _ => rfl⟩

theorem depthIn_eq (key : Nat) {fs : List Frame} {ls : List Laying}
    (h : ls.map Laying.realm = fs.map Frame.realm) :
    depthIn key fs = ls.countP (·.realm = key) := by
  have hc : ∀ {α : Type} (f : α → Nat) (xs : List α),
      xs.countP (fun x => decide (f x = key)) = (xs.map f).countP (fun n => decide (n = key)) := by
    intro α f xs
    rw [List.countP_map]
    rfl
  rw [depthIn, hc, hc Laying.realm, h]

theorem recorded_of_left {e : Ending} (h : e ≠ .entered) (tree : TypeTree) (ls : List Laying) :
    recorded tree ls act e = ls.drop (act.leaving ls.length) := by
  cases act <;> cases e <;> first | rfl | exact absurd rfl h

theorem recorded_update {a' : Arena} {new : List Laying} (hr : a.Recorded ls)
    (hframes : ∀ u, u ≠ t → a'.frames u = a.frames u)
    (hout : ∀ u, u ≠ t → ∀ key, a'.outlook u key = a.outlook u key)
    (hnew : new.map Laying.realm = (a'.frames t).map Frame.realm)
    (hbuilt : ∀ key, (a'.outlook t key).Built (Laying.inRealm key new)) :
    a'.Recorded (Function.update ls t new) where
  frames := by
    intro u
    by_cases hu : u = t
    · subst hu
      rw [Function.update_self, hnew]
    · rw [Function.update_of_ne hu, hframes u hu, hr.frames]
  built := by
    intro u key
    by_cases hu : u = t
    · subst hu
      rw [Function.update_self]
      exact hbuilt key
    · rw [Function.update_of_ne hu, hout u hu]
      exact hr.built u key

theorem built_cons (hr : a.Recorded ls) {a' : Arena} {key : Nat} {types : List TypeId}
    (hover : (a.outlook t key).Over a.catalog.tree types (a'.outlook t key))
    (hout : ∀ k, k ≠ key → a'.outlook t k = a.outlook t k) (k : Nat) :
    (a'.outlook t k).Built (Laying.inRealm k (⟨key, a.catalog.tree, types⟩ :: ls t)) := by
  by_cases hk : k = key
  · subst hk
    rw [Laying.inRealm_cons_self ⟨k, a.catalog.tree, types⟩]
    exact ⟨a.outlook t k, hover, hr.built t k⟩
  · rw [Laying.inRealm_cons_of_ne (Ne.symm hk), hout k hk]
    exact hr.built t k

theorem built_drop (hr : a.Recorded ls) (t key n : Nat) :
    (Outlook.leave^[depthIn key ((a.frames t).take n)] (a.outlook t key)).Built
      (Laying.inRealm key ((ls t).drop n)) := by
  have hd : depthIn key ((a.frames t).take n) = ((ls t).take n).countP (·.realm = key) := by
    apply depthIn_eq
    rw [List.map_take, List.map_take, hr.frames]
  rw [hd, Laying.inRealm_drop]
  apply Outlook.built_drop (hr.built t key)
  rw [Laying.inRealm, ← List.countP_eq_length_filter]
  exact (List.take_sublist _ _).countP_le

theorem recorded_step (ha : a.Sound a.frames) (hr : a.Recorded ls) (hp : a.Permits t act) :
    (a.step t act).2.Recorded (Function.update ls t (a.record t act (ls t))) := by
  have hs := step_spec ha hp
  apply recorded_update hr hs.others (fun u hu => hs.shift.others hu)
  · rcases hs.change with ⟨key, types, id, rfl, he, hf, _, _⟩ | ⟨he, hf, _⟩
    · rw [record, he, hf, recorded, List.map_cons, List.map_cons, hr.frames]
    · rw [record, recorded_of_left he, hr.length, hf, List.map_drop, List.map_drop, hr.frames]
  · intro k
    rcases hs.change with ⟨key, types, id, rfl, he, _, hover, hk⟩ | ⟨he, _, hk⟩
    · rw [record, he]
      exact built_cons hr hover hk k
    · rw [record, recorded_of_left he, hr.length, hk]
      exact built_drop hr t k _

theorem recorded_run {acts : List (Nat × Act)} (ha : a.Sound a.frames) (hr : a.Recorded ls)
    (hl : a.Lawful acts) : (a.run acts).Recorded (a.layings ls acts) := by
  induction acts generalizing a ls with
  | nil => exact hr
  | cons p acts ih => exact ih (step_spec ha hl.1).sound (recorded_step ha hr hl.1) hl.2

/-- Look-up finds a chain where an active scope of the realm offers something
under the name, and the chain holds the recomputed candidates. -/
theorem lookup_reference (v : Option Log.Verbosity) (acts : List (Nat × Act))
    (hl : (Arena.new v).Lawful acts) (t key : Nat) (name : String) :
    let a := (Arena.new v).run acts
    let active := Laying.inRealm key ((Arena.new v).layings (fun _ => []) acts t)
    ∃ found, (a.step t (.lookup key name)).1 = .chain found ∧
      (found = none ↔ ∀ l ∈ active, ∀ m ∈ l.tree.laid l.types, m.name ≠ name) ∧
      ∀ id, found = some id →
        ((a.step t (.lookup key name)).2.store.chain id).entries =
          Laying.reference name active := by
  intro a active
  have ha : a.Sound a.frames := sound_run (sound_new v) hl
  have hb : (a.outlook t key).Built active :=
    (recorded_run (sound_new v) (recorded_new v) hl).built t key
  have hnone := Outlook.built_eq_nil hb name
  have hentries := Outlook.built_entries hb name
  have hstep : Step t (.lookup key name) a _ _ := step_spec ha trivial
  refine ⟨_, lookup_answer ha t key name, ?_, ?_⟩
  · simp only [← Laying.offers_eq_nil, ← hnone]
    cases (a.outlook t key).lineage name <;> simp [Lineage.ids]
  · intro id hid
    cases hl : (a.outlook t key).lineage name with
    | nil =>
      rw [hl] at hid
      cases hid
    | cons p below =>
      have hmem : p ∈ (a.outlook t key).lineage name := by
        rw [hl]
        exact List.mem_cons_self
      obtain ⟨hp, hlt⟩ := chain_of_outlook ha hmem
      rw [hl] at hid hentries
      obtain rfl : p.1 = id := Option.some.inj hid
      rw [hstep.shift.store.frame hlt, hp]
      exact hentries

def laidTwice : List (Nat × Act) :=
  [(0, .register "Base" ⟨0⟩), (0, .register "Derived" ⟨1⟩),
   (0, .declare ⟨1⟩ ⟨"f", [⟨1⟩], true, true, none⟩),
   (0, .declare ⟨2⟩ ⟨"f", [⟨2⟩], true, true, none⟩),
   (0, .enter 0 [⟨2⟩, ⟨1⟩])]

theorem lookup_laidTwice :
    ∃ id, (((Arena.new none).run laidTwice).step 0 (.lookup 0 "f")).1 = .chain (some id) ∧
      ((((Arena.new none).run laidTwice).step 0 (.lookup 0 "f")).2.store.chain id).entries.map
        Candidate.target = [⟨2⟩, ⟨1⟩, ⟨1⟩] := by
  obtain ⟨found, hf, hnone, hsome⟩ :=
    lookup_reference none laidTwice (by decide +kernel) 0 0 "f"
  cases found with
  | none => exact absurd (hnone.1 rfl) (by decide +kernel)
  | some id =>
    refine ⟨id, hf, ?_⟩
    rw [hsome id rfl]
    decide +kernel

end Arena

end ScopedMethods
