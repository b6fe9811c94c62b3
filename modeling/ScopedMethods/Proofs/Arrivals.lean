import ScopedMethods.Proofs.Workshop

/-!
# Candidates in order of arrival

A candidate that goes ahead of an ancestor's goes ahead of everything behind that
one, also of candidates that have nothing to do with it. So of two candidates for
unrelated targets the later one may stand first: just when it overtook, with an
older candidate for an ancestor of its target, what stood behind that. All such
pairs keep the order in which they came unless a candidate was added between two
others, unrelated to both, the earlier of them for an ancestor of the later.
-/

set_option autoImplicit false

namespace ScopedMethods

def Before (order : List Nat) (i j : Nat) : Prop := [i, j].Sublist order

section Before

variable {order front rest : List Nat} {i j n x : Nat}

theorem before_cons : Before (x :: rest) i j ↔ Before rest i j ∨ x = i ∧ j ∈ rest := by
  rw [Before, List.sublist_cons_iff]
  constructor
  · rintro (h | ⟨l, hl, hsub⟩)
    · exact Or.inl h
    · cases hl
      exact Or.inr ⟨rfl, List.singleton_sublist.1 hsub⟩
  · rintro (h | ⟨rfl, hj⟩)
    · exact Or.inl h
    · exact Or.inr ⟨[j], rfl, List.singleton_sublist.2 hj⟩

theorem Before.mem (h : Before order i j) : i ∈ order ∧ j ∈ order :=
  ⟨h.subset List.mem_cons_self, h.subset (List.mem_cons_of_mem _ List.mem_cons_self)⟩

theorem before_asymm (hn : order.Nodup) (h : Before order i j) : ¬Before order j i := by
  induction order with
  | nil => cases h
  | cons x rest ih =>
    obtain ⟨hx, hrest⟩ := List.nodup_cons.1 hn
    intro h'
    rcases before_cons.1 h with h | ⟨rfl, hj⟩
    · rcases before_cons.1 h' with h' | ⟨rfl, hi⟩
      · exact ih hrest h h'
      · exact hx h.mem.2
    · rcases before_cons.1 h' with h' | ⟨rfl, hi⟩
      · exact hx h'.mem.2
      · exact hx hj

theorem before_total (hi : i ∈ order) (hj : j ∈ order) (hne : i ≠ j) :
    Before order i j ∨ Before order j i := by
  induction order with
  | nil => cases hi
  | cons x rest ih =>
    rw [before_cons, before_cons]
    rcases List.mem_cons.1 hi with rfl | hirest
    · have hjrest := (List.mem_cons.1 hj).resolve_left (Ne.symm hne)
      exact Or.inl (Or.inr ⟨rfl, hjrest⟩)
    · rcases List.mem_cons.1 hj with rfl | hjrest
      · exact Or.inr (Or.inr ⟨rfl, hirest⟩)
      · exact (ih hirest hjrest).imp Or.inl Or.inl

theorem before_insert (hi : i ≠ n) (hj : j ≠ n) :
    Before (front ++ n :: rest) i j ↔ Before (front ++ rest) i j := by
  induction front with
  | nil =>
    rw [List.nil_append, List.nil_append, before_cons]
    simp [Ne.symm hi]
  | cons x front ih =>
    rw [List.cons_append, List.cons_append, before_cons, before_cons, ih]
    simp [hj]

theorem before_of_not_mem_front (hi : i ∉ front) :
    Before (front ++ rest) i j ↔ Before rest i j := by
  induction front with
  | nil => rfl
  | cons x front ih =>
    obtain ⟨hx, hfront⟩ := not_or.1 (mt List.mem_cons.2 hi)
    rw [List.cons_append, before_cons, ih hfront]
    simp [Ne.symm hx]

theorem before_new (hfront : n ∉ front) (hrest : n ∉ rest) :
    Before (front ++ n :: rest) n i ↔ i ∈ rest := by
  rw [before_of_not_mem_front hfront, before_cons]
  constructor
  · rintro (h | ⟨-, hi⟩)
    · exact absurd h.mem.1 hrest
    · exact hi
  · exact fun hi => Or.inr ⟨rfl, hi⟩

end Before

namespace TypeTree

def Above (tree : TypeTree) (added : List Candidate) (k j : Nat) : Prop :=
  ∃ e f, added[k]? = some e ∧ added[j]? = some f ∧ e.target ∈ tree.ancestors f.target

def Unrelated (tree : TypeTree) (added : List Candidate) (i j : Nat) : Prop :=
  ∃ e f, added[i]? = some e ∧ added[j]? = some f ∧ e.target ≠ f.target ∧
    e.target ∉ tree.ancestors f.target ∧ f.target ∉ tree.ancestors e.target

instance (tree : TypeTree) (added : List Candidate) (k j : Nat) :
    Decidable (tree.Above added k j) :=
  decidable_of_iff (∃ e ∈ added[k]?, ∃ f ∈ added[j]?, e.target ∈ tree.ancestors f.target)
    ⟨fun ⟨e, he, f, hf, h⟩ => ⟨e, f, he, hf, h⟩, fun ⟨e, f, he, hf, h⟩ => ⟨e, he, f, hf, h⟩⟩

instance (tree : TypeTree) (added : List Candidate) (i j : Nat) :
    Decidable (tree.Unrelated added i j) :=
  decidable_of_iff (∃ e ∈ added[i]?, ∃ f ∈ added[j]?, e.target ≠ f.target ∧
      e.target ∉ tree.ancestors f.target ∧ f.target ∉ tree.ancestors e.target)
    ⟨fun ⟨e, he, f, hf, h⟩ => ⟨e, f, he, hf, h⟩, fun ⟨e, f, he, hf, h⟩ => ⟨e, he, f, hf, h⟩⟩

def InTurn (tree : TypeTree) (added : List Candidate) (order : List Nat) : Prop :=
  ∀ i j, i < j → tree.Unrelated added i j → Before order i j

/-- A later addition went ahead of an older one: of a candidate for an ancestor of its
target, and so of the older one, which is that candidate or stands behind it. -/
def Overtakes (tree : TypeTree) (added : List Candidate) (order : List Nat) (j i : Nat) : Prop :=
  ∃ k < j, tree.Above added k j ∧ (k = i ∨ Before order k i)

/-- The numbers of the additions, in the order in which their candidates stand. -/
structure Arrived (tree : TypeTree) (added es : List Candidate) (order : List Nat) : Prop where
  perm : order.Perm (List.range added.length)
  entries : es.map some = order.map (added[·]?)
  law : ∀ {tree' : TypeTree}, tree.Grows tree' → ∀ {i j : Nat}, i < j → j < added.length →
    (Before order j i ↔ tree'.Overtakes added order j i)

variable {tree tree' : TypeTree} {new : Candidate} {added es : List Candidate}
  {order : List Nat} {i j k m : Nat}

theorem above_append (hk : k < added.length) (hj : j < added.length) :
    tree.Above (added ++ [new]) k j ↔ tree.Above added k j := by
  rw [Above, List.getElem?_append_left hk, List.getElem?_append_left hj, Above]

theorem above_new (hk : k < added.length) :
    tree.Above (added ++ [new]) k added.length ↔
      ∃ e, added[k]? = some e ∧ e.target ∈ tree.ancestors new.target := by
  rw [Above, List.getElem?_append_left hk, List.getElem?_concat_length]
  simp

theorem Above.trans (h : tree.Above added m k) (h' : tree.Above added k j) :
    tree.Above added m j := by
  obtain ⟨e, f, he, hf, hm⟩ := h
  obtain ⟨f', g, hf', hg, hm'⟩ := h'
  cases hf.symm.trans hf'
  exact ⟨e, g, he, hg, mem_ancestors_trans hm hm'⟩

theorem not_above_of_above (h : tree.Above added k j) : ¬tree.Above added j k := by
  rintro ⟨f', e', hf', he', hm'⟩
  obtain ⟨e, f, he, hf, hm⟩ := h
  cases he.symm.trans he'
  cases hf.symm.trans hf'
  exact not_mem_ancestors_self tree _ (mem_ancestors_trans hm hm')

theorem Known.mem_ancestors_iff (hk : tree.Known new es) (hg : tree.Grows tree') {e : Candidate}
    (he : e ∈ es) :
    e.target ∈ tree'.ancestors new.target ↔ e.target ∈ tree.ancestors new.target := by
  rcases hk e he with ht | hr
  · rw [ht]
    exact iff_of_false (not_mem_ancestors_self tree' _) (not_mem_ancestors_self tree _)
  · rw [hg.ancestors hr]

theorem arrived_nil (tree : TypeTree) : tree.Arrived [] [] [] :=
  ⟨List.Perm.refl _, rfl, fun _ _ _ _ hj => absurd hj (Nat.not_lt_zero _)⟩

namespace Arrived

theorem mem_iff (h : tree.Arrived added es order) : k ∈ order ↔ k < added.length := by
  rw [h.perm.mem_iff, List.mem_range]

theorem nodup (h : tree.Arrived added es order) : order.Nodup :=
  h.perm.nodup_iff.2 List.nodup_range

theorem grows (h : tree.Arrived added es order) (hg : tree.Grows tree') :
    tree'.Arrived added es order :=
  ⟨h.perm, h.entries, fun hg' => h.law (hg.trans hg')⟩

end Arrived

theorem mem_of_map_some {l : List Candidate} {order : List Nat}
    (h : l.map some = order.map (added[·]?)) (hk : k ∈ order) : ∃ e ∈ l, added[k]? = some e := by
  have hmem : added[k]? ∈ l.map some := by
    rw [h]
    exact List.mem_map_of_mem hk
  obtain ⟨e, he, heq⟩ := List.mem_map.1 hmem
  exact ⟨e, he, heq.symm⟩

theorem mem_rest_iff {before after : List Candidate} {front rest : List Nat}
    (hfront : before.map some = front.map (added[·]?))
    (hrest : after.map some = rest.map (added[·]?))
    (hall : ∀ k, k ∈ front ++ rest ↔ k < added.length)
    (hbefore : ∀ e ∈ before, e.target ∉ tree.ancestors new.target)
    (hafter : after = [] ∨ ∃ b l, after = b :: l ∧ b.target ∈ tree.ancestors new.target)
    (hi : i < added.length) :
    i ∈ rest ↔ tree.Overtakes (added ++ [new]) (front ++ added.length :: rest) added.length i := by
  constructor
  · intro hmem
    rcases hafter with rfl | ⟨b, l, rfl, hb⟩
    · rw [List.map_nil] at hrest
      rw [List.map_eq_nil_iff.1 hrest.symm] at hmem
      cases hmem
    · cases rest with
      | nil => cases hmem
      | cons k rest =>
        obtain ⟨hk, -⟩ := List.cons.inj hrest
        have hklt : k < added.length :=
          (hall k).1 (List.mem_append_right _ List.mem_cons_self)
        refine ⟨k, hklt, (above_new hklt).2 ⟨b, hk.symm, hb⟩, ?_⟩
        rcases List.mem_cons.1 hmem with he | hmem
        · exact Or.inl he.symm
        · have hsub : (k :: rest).Sublist (front ++ added.length :: k :: rest) :=
            (List.sublist_cons_self _ _).trans (List.sublist_append_right _ _)
          exact Or.inr (((List.singleton_sublist.2 hmem).cons_cons k).trans hsub)
  · rintro ⟨k, hklt, habove, hki⟩
    obtain ⟨e, he, hm⟩ := (above_new hklt).1 habove
    have hknot : k ∉ front := by
      intro hk
      obtain ⟨e', hmem, he'⟩ := mem_of_map_some hfront hk
      cases he.symm.trans he'
      exact hbefore e hmem hm
    rcases hki with rfl | hki
    · exact (List.mem_append.1 ((hall k).2 hi)).resolve_left hknot
    · rw [before_of_not_mem_front hknot, before_cons] at hki
      rcases hki with hki | ⟨he, -⟩
      · exact hki.mem.2
      · omega

theorem Arrived.insert (h : tree.Arrived added es order) (hknown : tree.Known new es) :
    ∃ order', tree.Arrived (added ++ [new]) (tree.insert new es) order' := by
  obtain ⟨before, after, hes, hinsert, hbefore, hafter⟩ := insert_split tree new es
  have hentries := h.entries
  rw [hes, List.map_append] at hentries
  obtain ⟨front, rest, horder, hfront, hrest⟩ := List.map_eq_append_iff.1 hentries.symm
  have hall : ∀ k, k ∈ front ++ rest ↔ k < added.length := by
    intro k
    rw [← horder]
    exact h.mem_iff
  have hnew : added.length ∉ front ++ rest := fun hm => Nat.lt_irrefl _ ((hall _).1 hm)
  have hkept : ∀ l : List Nat, (∀ k ∈ l, k < added.length) →
      l.map (added[·]?) = l.map ((added ++ [new])[·]?) := by
    intro l hl
    apply List.map_congr_left
    intro k hk
    exact (List.getElem?_append_left (hl k hk)).symm
  refine ⟨front ++ added.length :: rest, ?_, ?_, ?_⟩
  · calc
      List.Perm (front ++ added.length :: rest) (added.length :: (front ++ rest)) :=
        List.perm_middle
      List.Perm _ (added.length :: List.range added.length) := by
        rw [← horder]
        exact h.perm.cons _
      List.Perm _ (List.range (added ++ [new]).length) := by
        rw [List.length_append, List.length_singleton, List.range_succ]
        exact (List.perm_append_singleton _ _).symm
  · rw [hinsert, List.map_append, List.map_cons, List.map_append, List.map_cons,
      List.getElem?_concat_length, ← hfront, ← hrest,
      hkept front fun k hk => (hall k).1 (List.mem_append_left _ hk),
      hkept rest fun k hk => (hall k).1 (List.mem_append_right _ hk)]
  · intro tree' hg i j hij hj
    rw [List.length_append, List.length_singleton] at hj
    rcases Nat.lt_succ_iff_lt_or_eq.1 hj with hlt | rfl
    -- Two older candidates stand as they stood.
    · have hi := hij.trans hlt
      rw [before_insert (Nat.ne_of_lt hlt) (Nat.ne_of_lt hi), ← horder, h.law hg hij hlt]
      apply exists_congr
      intro k
      apply and_congr_right
      intro hk
      rw [above_append (hk.trans hlt) hlt,
        before_insert (Nat.ne_of_lt (hk.trans hlt)) (Nat.ne_of_lt hi), ← horder]
    · obtain ⟨hnfront, hnrest⟩ := not_or.1 (mt List.mem_append.2 hnew)
      rw [before_new hnfront hnrest]
      apply mem_rest_iff hfront.symm hrest.symm hall _ _ hij
      · intro e he
        rw [hknown.mem_ancestors_iff hg (by rw [hes]; exact List.mem_append_left _ he)]
        exact hbefore e he
      · rcases hafter with hnil | ⟨b, l, hl, hb⟩
        · exact Or.inl hnil
        · right
          refine ⟨b, l, hl, (hknown.mem_ancestors_iff hg ?_).2 hb⟩
          rw [hes, hl]
          exact List.mem_append_right _ List.mem_cons_self

namespace Arrived

/-- The older of two candidates stands first unless the later one overtook it. -/
theorem before_iff (h : tree.Arrived added es order) (hij : i < j) (hj : j < added.length) :
    Before order i j ↔ ¬tree.Overtakes added order j i := by
  rw [← h.law (Grows.refl tree) hij hj]
  constructor
  · exact before_asymm h.nodup
  · intro hnot
    have hi : i ∈ order := h.mem_iff.2 (hij.trans hj)
    exact (before_total hi (h.mem_iff.2 hj) (Nat.ne_of_lt hij)).resolve_right hnot

theorem not_above (h : tree.Arrived added es order) (hki : Before order k i) :
    ¬tree.Above added k i := by
  intro habove
  have hlt : ∀ {n}, n ∈ order → n < added.length := fun hn => h.mem_iff.1 hn
  induction k using Nat.strong_induction_on generalizing i with
  | _ k ih =>
    rcases Nat.lt_trichotomy k i with hlt' | rfl | hgt
    · have hik : Before order i k :=
        (h.law (Grows.refl tree) hlt' (hlt hki.mem.2)).2 ⟨k, hlt', habove, Or.inl rfl⟩
      exact before_asymm h.nodup hki hik
    · exact before_asymm h.nodup hki hki
    · obtain ⟨m, hm, hmk, hmi⟩ := (h.law (Grows.refl tree) hgt (hlt hki.mem.1)).1 hki
      rcases hmi with rfl | hmi
      · exact not_above_of_above habove hmk
      · exact ih m hm hmi (hmk.trans habove)

/-- Unrelated candidates stand as they came unless one came between two others, unrelated to
both, the earlier of them for an ancestor of the later's target. -/
theorem inTurn_iff (h : tree.Arrived added es order) :
    tree.InTurn added order ↔ ¬∃ k i j, k < i ∧ i < j ∧ tree.Above added k j ∧
      tree.Unrelated added k i ∧ tree.Unrelated added i j := by
  have hbound : ∀ {i j}, tree.Unrelated added i j → j < added.length := by
    rintro i j ⟨e, f, -, hf, -⟩
    exact (List.getElem?_eq_some_iff.1 hf).1
  constructor
  · rintro hturn ⟨k, i, j, hki, hij, habove, hunrel, hunrel'⟩
    have hj := hbound hunrel'
    refine (h.before_iff hij hj).1 (hturn i j hij hunrel') ?_
    exact ⟨k, hki.trans hij, habove, Or.inr (hturn k i hki hunrel)⟩
  · intro hnone i j
    induction j using Nat.strong_induction_on generalizing i with
    | _ j ih =>
      intro hij hunrel
      rw [h.before_iff hij (hbound hunrel)]
      rintro ⟨k, hkj, habove, hki⟩
      obtain ⟨e, f, he, hf, hne, hef, hfe⟩ := hunrel
      obtain ⟨g, f', hg, hf', hgf⟩ := habove
      cases hf.symm.trans hf'
      rcases hki with rfl | hki
      · cases he.symm.trans hg
        exact hef hgf
      -- The one that was overtaken with the ancestor's is not related to that one.
      · have hgi : g.target ∉ tree.ancestors e.target :=
          fun hm => h.not_above hki ⟨g, e, hg, he, hm⟩
        have heg : e.target ∉ tree.ancestors g.target :=
          fun hm => hef (mem_ancestors_trans hm hgf)
        have hne' : g.target ≠ e.target := fun heq => hef (heq ▸ hgf)
        rcases Nat.lt_trichotomy k i with hlt | rfl | hgt
        · exact hnone ⟨k, i, j, hlt, hij, ⟨g, f, hg, hf, hgf⟩,
            ⟨g, e, hg, he, hne', hgi, heg⟩, ⟨e, f, he, hf, hne, hef, hfe⟩⟩
        · exact before_asymm h.nodup hki hki
        · have hik := ih k hkj i hgt ⟨e, g, he, hg, Ne.symm hne', heg, hgi⟩
          exact before_asymm h.nodup hki hik

end Arrived

end TypeTree

namespace Workshop

variable {w : Workshop} {past : ChainId → Past} {new : Candidate} {id : ChainId}

def Arranged (w : Workshop) (past : ChainId → Past) : Prop :=
  ∀ id, w.Has id → ∃ order,
    w.catalog.tree.Arrived (past id).added (w.store.chain id).entries order

theorem arranged_newChain (h : w.Arranged past) {c : Chain} {x : Past} {order : List Nat}
    (hx : w.catalog.tree.Arrived x.added c.entries order) :
    Arranged { w with store := (w.store.newChain c).2 }
      (Function.update past ⟨w.store.chains.size⟩ x) := by
  intro id hid
  have hsize : id.number < w.store.chains.size + 1 := by
    simpa [Has, Store.newChain] using hid
  rcases Nat.lt_succ_iff_lt_or_eq.1 hsize with hlt | heq
  · have hne : id ≠ ⟨w.store.chains.size⟩ := by
      rintro rfl
      exact Nat.lt_irrefl _ hlt
    rw [Function.update_of_ne hne, Store.chain_newChain_of_lt hlt]
    exact h id hlt
  · obtain rfl : id = ⟨w.store.chains.size⟩ := by cases id; simp_all
    refine ⟨order, ?_⟩
    rw [Function.update_self]
    exact (Store.chain_newChain_self w.store c).symm ▸ hx

theorem arranged_add (h : w.Arranged past) (hid : w.Has id)
    (hok : (w.store.add w.catalog id new).1 = .ok ()) :
    Arranged { w with store := (w.store.add w.catalog id new).2 }
      (Function.update past id ((past id).extended new)) := by
  obtain ⟨hknown, hes, -, hothers⟩ := add_of_ok hid hok
  intro j hj
  by_cases he : id = j
  · subst he
    obtain ⟨order, ho⟩ := h id hid
    obtain ⟨order', ho'⟩ := ho.insert hknown
    refine ⟨order', ?_⟩
    rw [Function.update_self, Past.added_extended, hes]
    exact ho'
  · rw [Function.update_of_ne (Ne.symm he), hothers j he]
    apply h
    rw [Has] at hj ⊢
    rwa [size_add] at hj

theorem arranged_step (h : w.Arranged past) (job : Job) :
    (w.step job).Arranged (w.record past job) := by
  have hturn := turn_step w past job
  generalize w.step job = w', w.record past job = past' at hturn ⊢
  cases hturn with
  | still _ hg hs =>
    intro id hid
    rw [Has, hs] at hid
    obtain ⟨order, ho⟩ := h id hid
    have hsame : w'.store.chain id = w.store.chain id := by
      rw [Store.chain, hs, Store.chain]
    exact ⟨order, hsame ▸ ho.grows hg⟩
  | first c hc hprev =>
    apply arranged_newChain h
    rw [hc]
    exact TypeTree.arrived_nil _
  | atop p hp c hc hprev =>
    obtain ⟨order, ho⟩ := h p hp
    have hadded : Past.added ⟨(past p).added, (w.store.chain p).entries, []⟩ = (past p).added :=
      List.append_nil _
    apply arranged_newChain h
    rw [hadded, hc]
    exact ho
  | taken id hid new hok => exact arranged_add h hid hok

theorem arranged_run (h : w.Arranged past) (jobs : List Job) :
    (w.run jobs).Arranged (w.history past jobs) := by
  induction jobs generalizing w past with
  | nil => exact h
  | cons job jobs ih => exact ih (arranged_step h job)

/-- In every chain an older candidate stands before a later one unless that one overtook it.
Those for unrelated targets all stand as they came just when none of them was added between
one for an ancestor of a target and one for that target while unrelated to both. -/
theorem chains_arranged (v : Option Log.Verbosity) (jobs : List Job) (id : ChainId) :
    let w := (Workshop.new v).run jobs
    let added := ((Workshop.new v).history unmade jobs id).added
    w.Has id → ∃ order : List Nat,
      order.Perm (List.range added.length) ∧
      (w.store.chain id).entries.map some = order.map (added[·]?) ∧
      (∀ i j, i < j → j < added.length →
        (Before order i j ↔ ¬w.catalog.tree.Overtakes added order j i)) ∧
      (w.catalog.tree.InTurn added order ↔ ¬∃ k i j, k < i ∧ i < j ∧
        w.catalog.tree.Above added k j ∧ w.catalog.tree.Unrelated added k i ∧
        w.catalog.tree.Unrelated added i j) := by
  intro w added hid
  have hnew : (Workshop.new v).Arranged unmade := fun _ h => absurd h (Nat.not_lt_zero _)
  obtain ⟨order, ho⟩ := arranged_run hnew jobs id hid
  exact ⟨order, ho.perm, ho.entries, fun _ _ hij hj => ho.before_iff hij hj, ho.inTurn_iff⟩

def overtaking : List Job :=
  [.register "Base" ⟨0⟩, .register "Other" ⟨0⟩, .register "Sub" ⟨1⟩, .counter,
   .first "f" 1 ⟨0⟩, .add ⟨0⟩ (loose 0 ⟨1⟩), .add ⟨0⟩ (loose 1 ⟨2⟩), .add ⟨0⟩ (loose 2 ⟨3⟩)]

theorem chains_arranged_overtaking :
    let w := (Workshop.new none).run overtaking
    let added := ((Workshop.new none).history unmade overtaking ⟨0⟩).added
    w.Has ⟨0⟩ ∧ ∃ order : List Nat, order.Perm (List.range added.length) ∧
      (w.store.chain ⟨0⟩).entries.map some = order.map (added[·]?) ∧
      ¬w.catalog.tree.InTurn added order := by
  intro w added
  have hid : w.Has ⟨0⟩ := by decide +kernel
  obtain ⟨order, hperm, hentries, -, hturn⟩ := chains_arranged none overtaking ⟨0⟩ hid
  refine ⟨hid, order, hperm, hentries, fun h => hturn.1 h ⟨0, 1, 2, ?_⟩⟩
  decide +kernel

/-- The candidate for the type beside comes before the one for the type below, to which it is
not related, and stands behind it. -/
theorem not_always_inTurn :
    ¬∀ (v : Option Log.Verbosity) (jobs : List Job) (id : ChainId),
      let w := (Workshop.new v).run jobs
      let added := ((Workshop.new v).history unmade jobs id).added
      w.Has id → ∃ order : List Nat, order.Perm (List.range added.length) ∧
        (w.store.chain id).entries.map some = order.map (added[·]?) ∧
        w.catalog.tree.InTurn added order := by
  intro h
  obtain ⟨order, -, hentries, hturn⟩ := h none overtaking ⟨0⟩ (by decide +kernel)
  have hbefore : Before order 1 2 := hturn 1 2 (by decide) (by decide +kernel)
  have htargets : order.map (fun k =>
      (((Workshop.new none).history unmade overtaking ⟨0⟩).added[k]?).map Candidate.target) =
        [some ⟨3⟩, some ⟨1⟩, some ⟨2⟩] := by
    have hmap := congrArg (List.map (Option.map Candidate.target)) hentries
    rw [List.map_map, List.map_map] at hmap
    refine hmap.symm.trans ?_
    decide +kernel
  have hsub := hbefore.map fun k =>
    (((Workshop.new none).history unmade overtaking ⟨0⟩).added[k]?).map Candidate.target
  rw [htargets] at hsub
  revert hsub
  decide +kernel

end Workshop

end ScopedMethods
