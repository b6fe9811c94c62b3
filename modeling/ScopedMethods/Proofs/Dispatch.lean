import ScopedMethods.Proofs.Queries
import ScopedMethods.Proofs.Registrations
import ScopedMethods.Showcase

/-!
# Dispatch to the best candidate

The candidates that apply to a type have targets on one line towards the root.
Among them the partial order of a ranking is the order by depth, whatever stands
between them, so the first that applies is the most specific one, and of those
for its target the one registered first.
-/

set_option autoImplicit false

namespace ScopedMethods

section Sorting

variable {α : Type} (key : α → Nat)

theorem key_le_head {x y : α} {xs : List α}
    (h : (x :: xs).Pairwise fun x y => key y ≤ key x) (hy : y ∈ x :: xs) : key y ≤ key x := by
  rcases List.mem_cons.1 hy with rfl | hy
  · exact le_rfl
  · exact (List.pairwise_cons.1 h).1 y hy

theorem eq_of_filter_key_eq {xs ys : List α} (hx : xs.Pairwise fun x y => key y ≤ key x)
    (hy : ys.Pairwise fun x y => key y ≤ key x)
    (h : ∀ d, xs.filter (key · = d) = ys.filter (key · = d)) : xs = ys := by
  induction xs generalizing ys with
  | nil =>
    cases ys with
    | nil => rfl
    | cons y ys => simpa using h (key y)
  | cons x xs ih =>
    cases ys with
    | nil => simpa using h (key x)
    | cons y ys =>
      have hmem : ∀ z, z ∈ x :: xs ↔ z ∈ y :: ys := by
        intro z
        have hz := congrArg (z ∈ ·) (h (key z))
        simpa using hz
      have hkey : key x = key y :=
        le_antisymm (key_le_head key hy ((hmem x).1 List.mem_cons_self))
          (key_le_head key hx ((hmem y).2 List.mem_cons_self))
      have hhead := h (key x)
      simp only [List.filter_cons, hkey, decide_true, if_true] at hhead
      obtain ⟨rfl, -⟩ := List.cons.inj hhead
      congr 1
      apply ih hx.of_cons hy.of_cons
      intro d
      have hd := h d
      simp only [List.filter_cons] at hd
      split at hd
      · exact (List.cons.inj hd).2
      · exact hd

theorem filter_key_mergeSort (xs : List α) (d : Nat) :
    (xs.mergeSort fun x y => key y ≤ key x).filter (key · = d) = xs.filter (key · = d) := by
  have hsorted : (xs.filter (key · = d)).Pairwise fun x y => decide (key y ≤ key x) = true := by
    apply List.Pairwise.imp_of_mem (R := fun _ _ => True)
    · intro x y hx hy _
      have h1 := (List.mem_filter.1 hx).2
      have h2 := (List.mem_filter.1 hy).2
      simp only [decide_eq_true_eq] at h1 h2 ⊢
      omega
    · exact List.pairwise_of_forall fun _ _ => trivial
  have hsub := List.sublist_mergeSort (by simp; omega) (by simp; omega) hsorted List.filter_sublist
  have hsub' := hsub.filter (key · = d)
  rw [List.filter_filter] at hsub'
  simp only [Bool.and_self] at hsub'
  exact (hsub'.eq_of_length ((List.mergeSort_perm xs _).filter _).length_eq.symm).symm

end Sorting

namespace TypeTree

def applies (tree : TypeTree) (ty : TypeId) (e : Candidate) : Bool :=
  e.target ∈ ty :: tree.ancestors ty

def deeper (tree : TypeTree) (e f : Candidate) : Bool := tree.depth f.target ≤ tree.depth e.target

/-- A registration that applies to a type, on the most specific target that does,
and before all others for that target. -/
structure Best (tree : TypeTree) (ty : TypeId) (regs : List Candidate) (e : Candidate) : Prop where
  applies : tree.applies ty e = true
  deepest : ∀ f ∈ regs, tree.applies ty f = true →
    f.target = e.target ∨ f.target ∈ tree.ancestors e.target
  earliest : ∃ before after, regs = before ++ e :: after ∧ ∀ f ∈ before, f.target ≠ e.target

variable {tree : TypeTree} {ty : TypeId} {added es regs : List Candidate} {e f : Candidate}

theorem Ranking.sorted (h : tree.Ranking added es) (ty : TypeId) :
    (es.filter (tree.applies ty)).Pairwise fun e f =>
      f.target = e.target ∨ f.target ∈ tree.ancestors e.target := by
  apply List.Pairwise.imp_of_mem _ ((h.ordered (.refl tree)).sublist List.filter_sublist)
  intro e f he hf hn
  have he' := of_decide_eq_true (List.mem_filter.1 he).2
  have hf' := of_decide_eq_true (List.mem_filter.1 hf).2
  rcases comparable hf' he' with ht | ht | ht
  · exact Or.inl ht
  · exact Or.inr ht
  · exact absurd ht hn

theorem filter_depth (tree : TypeTree) (ty : TypeId) (d : Nat) : ∃ t, ∀ es : List Candidate,
    (es.filter (tree.applies ty)).filter (fun e => decide (tree.depth e.target = d)) =
      if t ∈ ty :: tree.ancestors ty ∧ tree.depth t = d then es.filter (·.target = t) else [] := by
  by_cases hd : ∃ t ∈ ty :: tree.ancestors ty, tree.depth t = d
  · obtain ⟨t, ht, hd⟩ := hd
    refine ⟨t, fun es => ?_⟩
    rw [if_pos ⟨ht, hd⟩, List.filter_filter]
    apply List.filter_congr
    intro e _
    rw [Bool.eq_iff_iff, Bool.and_eq_true, decide_eq_true_iff, decide_eq_true_iff, applies,
      decide_eq_true_iff]
    constructor
    · rintro ⟨h1, h2⟩
      exact eq_of_depth_eq h2 ht (h1.trans hd.symm)
    · rintro rfl
      exact ⟨hd, ht⟩
  · refine ⟨ty, fun es => ?_⟩
    rw [if_neg fun hc => hd ⟨ty, hc⟩, List.filter_filter]
    apply List.filter_eq_nil_iff.2
    intro e _ he
    obtain ⟨h1, h2⟩ := Bool.and_eq_true_iff.1 he
    exact hd ⟨e.target, of_decide_eq_true h2, of_decide_eq_true h1⟩

theorem Ranking.filter_applies (h : tree.Ranking added es) (ty : TypeId) :
    es.filter (tree.applies ty) = (added.filter (tree.applies ty)).mergeSort tree.deeper := by
  apply eq_of_filter_key_eq fun e : Candidate => tree.depth e.target
  · apply (h.sorted ty).imp
    rintro e f (ht | ht)
    · rw [ht]
    · exact (depth_lt ht).le
  · have hs : ((added.filter (tree.applies ty)).mergeSort tree.deeper).Pairwise
        fun e f => tree.deeper e f = true :=
      List.pairwise_mergeSort (by simp [deeper]; omega) (by simp [deeper]; omega) _
    exact hs.imp fun hd => of_decide_eq_true hd
  · intro d
    obtain ⟨t, ht⟩ := filter_depth tree ty d
    have hsort := filter_key_mergeSort (fun e : Candidate => tree.depth e.target)
      (added.filter (tree.applies ty)) d
    calc
      _ = _ := ht es
      _ = _ := by rw [h.stable t]
      _ = _ := (ht added).symm
      _ = _ := hsort.symm

theorem Best.mem (h : tree.Best ty regs e) : e ∈ regs := by
  obtain ⟨before, after, hsplit, -⟩ := h.earliest
  rw [hsplit]
  exact List.mem_append_right _ List.mem_cons_self

theorem Best.unique (he : tree.Best ty regs e) (hf : tree.Best ty regs f) : e = f := by
  have hfind : ∀ {g}, tree.Best ty regs g → regs.find? (·.target = g.target) = some g := by
    intro g hg
    obtain ⟨before, after, h, hb⟩ := hg.earliest
    rw [List.find?_eq_some_iff_append]
    exact ⟨by simp, before, after, h, fun x hx => by simpa using hb x hx⟩
  have ht : e.target = f.target := by
    rcases he.deepest f hf.mem hf.applies with h1 | h1
    · exact h1.symm
    · rcases hf.deepest e he.mem he.applies with h2 | h2
      · exact h2
      · exact absurd (mem_ancestors_trans h1 h2) (not_mem_ancestors_self tree _)
  have h1 := hfind he
  rw [ht, hfind hf] at h1
  exact (Option.some.inj h1).symm

/-- The first candidate of a ranking that applies is the best registration. -/
theorem Ranking.best_of_find? (h : tree.Ranking regs es)
    (he : es.find? (tree.applies ty) = some e) : tree.Best ty regs e := by
  have happ := List.find?_some he
  have hsorted := h.sorted ty
  obtain ⟨rest, hrest⟩ : ∃ rest, es.filter (tree.applies ty) = e :: rest :=
    List.head?_eq_some_iff.1 (List.head?_filter.trans he)
  rw [hrest, List.pairwise_cons] at hsorted
  refine ⟨happ, fun f hf hfa => ?_, ?_⟩
  · have hmem : f ∈ e :: rest := by
      rw [← hrest]
      exact List.mem_filter.2 ⟨h.perm.mem_iff.2 hf, hfa⟩
    rcases List.mem_cons.1 hmem with rfl | hmem
    · exact Or.inl rfl
    · exact hsorted.1 f hmem
  -- All candidates for this target apply, so the first of them is the first that applies.
  · have hsame : es.filter (·.target = e.target) =
        (es.filter (tree.applies ty)).filter (·.target = e.target) := by
      rw [List.filter_filter]
      apply List.filter_congr
      intro f _
      by_cases hf : f.target = e.target
      · have hfa : tree.applies ty f = true := by rwa [applies, hf]
        simp [hf, hfa]
      · simp [hf]
    have hfind : regs.find? (·.target = e.target) = some e := by
      rw [← List.head?_filter, ← h.stable, hsame, hrest, List.filter_cons_of_pos (by simp)]
      rfl
    obtain ⟨-, before, after, hsplit, hb⟩ := List.find?_eq_some_iff_append.1 hfind
    exact ⟨before, after, hsplit, fun f hf => by simpa using hb f hf⟩

theorem Ranking.find?_eq_none_iff (h : tree.Ranking regs es) :
    es.find? (tree.applies ty) = none ↔ ∀ f ∈ regs, tree.applies ty f = false := by
  rw [List.find?_eq_none]
  constructor
  · intro hn f hf
    exact Bool.eq_false_iff.2 (hn f (h.perm.mem_iff.2 hf))
  · intro hn f hf
    exact Bool.eq_false_iff.1 (hn f (h.perm.mem_iff.1 hf))

end TypeTree

namespace Showcase

inductive Choice where
  | noScope
  | notOverlaid
  | noneApplies (among : Nat)
  | call (e : Candidate)

def Choice.answer (name : String) (receiver : Value) : Choice → Except Failure String
  | noScope => .ok s!"<{name}: no overlay scope>"
  | notOverlaid => .ok s!"<{name}: not overlaid>"
  | noneApplies n => .ok s!"<{name}: no applicable method among [{n}]>"
  | call e => (e.method.invoke [receiver]).bind textOf

def choose (tree : TypeTree) (ty : TypeId) (name : String) (o : Outlook) : Choice :=
  if o.level = 0 then .noScope
  else
    match o.lineage name with
    | [] => .notOverlaid
    | p :: _ =>
      match p.2.entries.find? (tree.applies ty) with
      | none => .noneApplies p.2.entries.length
      | some e => .call e

/-- When a choice is due, given whether the thread is inside of a scope and what its
scopes registered under the name. -/
def Choice.Due (tree : TypeTree) (ty : TypeId) (inside : Prop) (regs : List Candidate) :
    Choice → Prop
  | noScope => ¬ inside
  | notOverlaid => inside ∧ regs = []
  | noneApplies n =>
    inside ∧ regs ≠ [] ∧ (∀ e ∈ regs, tree.applies ty e = false) ∧ n = regs.length
  | call e => inside ∧ tree.Best ty regs e

variable {tree : TypeTree} {ty : TypeId} {regs : List Candidate}

theorem Choice.Due.unique {inside : Prop} {c d : Choice} (hc : c.Due tree ty inside regs)
    (hd : d.Due tree ty inside regs) : c = d := by
  have happ : ∀ e, tree.Best ty regs e → regs ≠ [] ∧ ∃ f ∈ regs, tree.applies ty f = true :=
    fun e he => ⟨List.ne_nil_of_mem he.mem, e, he.mem, he.applies⟩
  cases c <;> cases d <;> simp only [Due] at hc hd <;> grind [TypeTree.Best.unique]

theorem applicable?_eq (ht : tree.registered ty = true) (es : List Candidate) :
    applicable? ⟨tree, []⟩ ty es = .ok (es.find? (tree.applies ty)) := by
  induction es with
  | nil => rfl
  | cons e es ih =>
    rw [applicable?, TypeTree.descends_of_registered ht, List.find?_cons]
    by_cases he : e.target = ty
    · simp [TypeTree.applies, he]
    · by_cases ha : e.target ∈ tree.ancestors ty
      · simp [TypeTree.applies, he, ha]
      · simp [TypeTree.applies, he, ha, ih]

theorem callCandidate_eq (ht : tree.registered ty = true) (t : Caller) (name : String)
    (receiver : Value) (e : Candidate) (s : Store) :
    (callCandidate ⟨tree, []⟩ t name ty receiver e s).1 =
      (e.method.invoke [receiver]).bind textOf := by
  obtain ⟨i, hi⟩ := TypeTree.registered_iff.1 ht
  have hname : (⟨tree, []⟩ : Catalog).typeName ty = .ok i.name := by
    simp [Catalog.typeName, Catalog.info, hi, Except.map]
  rw [callCandidate]
  split
  · rw [hname]
  · rfl

/-- A dispatch answers by what the thread sees alone. -/
theorem dispatch_eq {r : Realm} {s : Store} (hr : r.Sound s) (ht : tree.registered ty = true)
    (t : Caller) (hb : r.openScopes < 2 ^ 64) (name : String) (receiver : Value) :
    (dispatch ⟨tree, []⟩ t name ty receiver r s).1 =
      (choose tree ty name (r.outlook s t.thread)).answer name receiver := by
  obtain ⟨hq, hflag⟩ := Realm.activeHere_spec hr t
  have hlevel := hflag hb
  have hsame := hq.same
  rw [dispatch, choose]
  generalize r.activeHere t s = p at hq hlevel hsame
  obtain ⟨flag, r₁, s₁⟩ := p
  simp only at hlevel hsame hq
  subst hlevel
  by_cases h0 : (r.outlook s t.thread).level = 0
  · simp [h0, Choice.answer]
  obtain ⟨hq', hid⟩ := Realm.lookup_spec hq.move.sound t name
  have hsame' := hq'.same.trans hsame
  rw [hsame] at hid
  have hchain : ∀ p ∈ (r.outlook s t.thread).lineage name,
      (r₁.lookup t name s₁).2.2.chain p.1 = p.2 := by
    intro p hp
    rw [← hsame'] at hp
    exact (hq'.move.sound.chain_of_outlook hp).1
  simp only [bne_iff_ne.2 h0, h0, if_false]
  generalize r₁.lookup t name s₁ = q at hid hchain
  obtain ⟨found, r₂, s₂⟩ := q
  simp only at hid hchain
  subst hid
  cases hl : (r.outlook s t.thread).lineage name with
  | nil => rfl
  | cons p below =>
    have hp : s₂.chain p.1 = p.2 := hchain p (by rw [hl]; exact List.mem_cons_self)
    simp only [Lineage.ids, List.map_cons, List.head?_cons, hp, applicable?_eq ht]
    cases hf : p.2.entries.find? (tree.applies ty) with
    | none => rfl
    | some e => exact callCandidate_eq ht t name receiver e s₂

theorem choose_due (ty : TypeId) {o : Outlook} {name : String}
    (hnone : o.lineage name = [] ↔ regs = [])
    (hrank : tree.Ranking regs (o.lineage name).entries) :
    (choose tree ty name o).Due tree ty (o.level ≠ 0) regs := by
  rw [choose]
  by_cases h0 : o.level = 0
  · rw [if_pos h0]
    exact not_not_intro h0
  rw [if_neg h0]
  cases hl : o.lineage name with
  | nil => exact ⟨h0, hnone.1 hl⟩
  | cons p below =>
    have hne : regs ≠ [] := fun h => by simp [hnone.2 h] at hl
    rw [hl] at hrank
    have hrank : tree.Ranking regs p.2.entries := hrank
    cases hf : p.2.entries.find? (tree.applies ty) with
    | none =>
      simp only [hf]
      exact ⟨h0, hne, hrank.find?_eq_none_iff.1 hf, hrank.perm.length_eq⟩
    | some e =>
      simp only [hf]
      exact ⟨h0, hrank.best_of_find? hf⟩

end Showcase

namespace Arena

theorem entries_of_lookup {a : Arena} {t key : Nat} {name : String} {id : ChainId}
    (ha : a.Sound a.frames) (h : (a.step t (.lookup key name)).1 = .chain (some id)) :
    ((a.step t (.lookup key name)).2.store.chain id).entries =
      ((a.outlook t key).lineage name).entries := by
  have hstep : Step t (.lookup key name) a _ _ := step_spec ha trivial
  rw [lookup_answer ha] at h
  cases hl : (a.outlook t key).lineage name with
  | nil =>
    rw [hl] at h
    cases h
  | cons p below =>
    obtain ⟨hp, hlt⟩ := chain_of_outlook ha (p := p) (by rw [hl]; exact List.mem_cons_self)
    rw [hl] at h
    obtain rfl : p.1 = id := Option.some.inj (Ending.chain.inj h)
    rw [hstep.shift.store.frame hlt, hp]
    rfl

/-- Among the candidates found for a name, those that apply to a type stand sorted by
depth, deepest first, with ties in order of registration. A dispatch on a registered
type makes the one choice that is due. -/
theorem dispatch_best (v : Option Log.Verbosity) (acts : List (Nat × Act))
    (hl : (Arena.new v).Lawful acts) (who : Caller) (key : Nat) (name : String) (ty : TypeId)
    (receiver : Value) :
    let a := (Arena.new v).run acts
    let tree := a.catalog.tree
    let active := Laying.inRealm key ((Arena.new v).layings (fun _ => []) acts who.thread)
    let regs := Laying.registrations name active
    (∀ id, (a.step who.thread (.lookup key name)).1 = .chain (some id) →
      (((a.step who.thread (.lookup key name)).2.store.chain id).entries.filter
        (tree.applies ty)) = (regs.filter (tree.applies ty)).mergeSort tree.deeper) ∧
    ∀ r, a.realm? key = some r → tree.registered ty = true → a.openScopes key < 2 ^ 64 →
      ∃ choice : Showcase.Choice,
        (Showcase.dispatch ⟨tree, []⟩ who name ty receiver r a.store).1 =
          choice.answer name receiver ∧
        ∀ c : Showcase.Choice, choice = c ↔ c.Due tree ty (active ≠ []) regs := by
  intro a tree active regs
  have ha : a.Sound a.frames := sound_run (sound_new v) hl
  have hrec := recorded_run (sound_new v) (recorded_new v) hl
  have hb : (a.outlook who.thread key).Built active := hrec.built who.thread key
  have hd : Laying.Dated tree active :=
    ((dated_run (sound_new v) (dated_new v) hl).layings who.thread).sublist List.filter_sublist
  have hrank : tree.Ranking regs ((a.outlook who.thread key).lineage name).entries := by
    rw [Outlook.built_entries hb name]
    exact Laying.ranking_reference hd name
  constructor
  · intro id hid
    rw [entries_of_lookup ha hid]
    exact hrank.filter_applies ty
  · intro r hr hty hbound
    have hnone : (a.outlook who.thread key).lineage name = [] ↔ regs = [] := by
      rw [Outlook.built_eq_nil hb, Laying.registrations_eq_nil]
    have hlevel : (a.outlook who.thread key).level ≠ 0 ↔ active ≠ [] := by
      have hdepth := ha.depth who.thread key
      rw [depthIn_eq key (hrec.frames who.thread), List.countP_eq_length_filter] at hdepth
      rw [Ne, ← UInt32.toNat_inj, hdepth, UInt32.toNat_zero, List.length_eq_zero_iff]
      rfl
    have hdue := Showcase.choose_due ty hnone hrank
    rw [hlevel] at hdue
    refine ⟨Showcase.choose tree ty name (a.outlook who.thread key), ?_, fun c => ?_⟩
    · rw [outlook_some hr]
      exact Showcase.dispatch_eq (ha.realms hr) hty who (by rwa [openScopes, hr] at hbound) name
        receiver
    · exact ⟨fun h => h ▸ hdue, fun h => hdue.unique h⟩

def interleaved : List (Nat × Act) :=
  [(0, .register "Base" ⟨0⟩), (0, .register "Sub" ⟨1⟩), (0, .register "Other" ⟨0⟩),
   (0, .register "Category" ⟨0⟩),
   (0, .declare ⟨4⟩ ⟨"f", [⟨1⟩], true, true, none⟩),
   (0, .declare ⟨4⟩ ⟨"f", [⟨3⟩], true, true, none⟩),
   (0, .declare ⟨4⟩ ⟨"f", [⟨2⟩], true, true, some fun _ => .ok (.text "sub")⟩),
   (0, .enter 0 [⟨4⟩, ⟨4⟩])]

theorem dispatch_interleaved :
    let a := (Arena.new none).run interleaved
    ∃ (r : Realm) (e : Candidate), a.realm? 0 = some r ∧
      (Showcase.dispatch ⟨a.catalog.tree, []⟩ ⟨0, ""⟩ "f" ⟨2⟩ .nothing r a.store).1 =
        (e.method.invoke [.nothing]).bind Showcase.textOf ∧
      e.target = ⟨2⟩ := by
  intro a
  obtain ⟨r, hr⟩ := Option.isSome_iff_exists.1 (show (a.realm? 0).isSome = true by decide +kernel)
  obtain ⟨choice, hanswer, hdue⟩ :=
    (dispatch_best none interleaved (by decide +kernel) ⟨0, ""⟩ 0 "f" ⟨2⟩ .nothing).2 r hr
      (by decide +kernel) (by decide +kernel)
  cases choice with
  | noScope => exact absurd ((hdue _).1 rfl) (by unfold Showcase.Choice.Due; decide +kernel)
  | notOverlaid => exact absurd ((hdue _).1 rfl).2 (by decide +kernel)
  | noneApplies n => exact absurd ((hdue _).1 rfl).2.2.1 (by decide +kernel)
  | call e =>
    have hbest := ((hdue _).1 rfl).2
    refine ⟨r, e, hr, ?_, ?_⟩
    · rw [hanswer]
      rfl
    obtain ⟨f, hf, hft⟩ : ∃ f ∈ Laying.registrations "f"
        (Laying.inRealm 0 ((Arena.new none).layings (fun _ => []) interleaved 0)),
        f.target = ⟨2⟩ := by decide +kernel
    have hself : ∀ t ∈ (⟨2⟩ : TypeId) :: a.catalog.tree.ancestors ⟨2⟩,
        ⟨2⟩ ∉ a.catalog.tree.ancestors t := by decide +kernel
    rcases hbest.deepest f hf (by rw [TypeTree.applies, hft]; decide +kernel) with ht | ht
    · exact ht.symm.trans hft
    · rw [hft] at ht
      exact absurd ht (hself _ (of_decide_eq_true hbest.applies))

end Arena

end ScopedMethods
