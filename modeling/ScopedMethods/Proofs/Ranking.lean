import ScopedMethods.Proofs.Descent

/-!
# Candidates in order of specificity

Being more specific is a partial order, and two candidates that it leaves open
need not be open to a third in the same way, so a chain is not sorted by it.
Yet no candidate stands after one for an ancestor of its target, however the
tree grows, and candidates for one target stand in the order in which they came.
-/

set_option autoImplicit false

namespace ScopedMethods

namespace TypeTree

/-- No candidate stands after one for an ancestor of its target. -/
def Ordered (tree : TypeTree) (es : List Candidate) : Prop :=
  es.Pairwise fun e f => e.target ∉ tree.ancestors f.target

/-- Candidates that were added one after another, and how they stand. -/
structure Ranking (tree : TypeTree) (added es : List Candidate) : Prop where
  perm : es.Perm added
  ordered : ∀ {tree' : TypeTree}, tree.Grows tree' → tree'.Ordered es
  stable : ∀ t : TypeId, es.filter (·.target = t) = added.filter (·.target = t)

def Known (tree : TypeTree) (new : Candidate) (es : List Candidate) : Prop :=
  ∀ e ∈ es, e.target = new.target ∨ tree.registered new.target = true

variable {tree tree' : TypeTree} {new : Candidate} {added es : List Candidate}

theorem ranking_nil (tree : TypeTree) : tree.Ranking [] [] :=
  ⟨List.Perm.refl _, fun _ => List.Pairwise.nil, fun _ => rfl⟩

theorem Ranking.grows (h : tree.Ranking added es) (hg : tree.Grows tree') :
    tree'.Ranking added es :=
  ⟨h.perm, fun hg' => h.ordered (hg.trans hg'), h.stable⟩

theorem insert_split (tree : TypeTree) (new : Candidate) (es : List Candidate) :
    ∃ before after, es = before ++ after ∧ tree.insert new es = before ++ new :: after ∧
      (∀ e ∈ before, e.target ∉ tree.ancestors new.target) ∧
      (after = [] ∨ ∃ b rest, after = b :: rest ∧ b.target ∈ tree.ancestors new.target) := by
  induction es with
  | nil => exact ⟨[], [], rfl, rfl, by simp, Or.inl rfl⟩
  | cons e es ih =>
    rw [insert_cons]
    by_cases he : e.target ∈ tree.ancestors new.target
    · rw [if_pos he]
      exact ⟨[], e :: es, rfl, rfl, by simp, Or.inr ⟨e, es, rfl, he⟩⟩
    · obtain ⟨before, after, h1, h2, h3, h4⟩ := ih
      rw [if_neg he, h2]
      refine ⟨e :: before, after, by rw [h1]; rfl, rfl, ?_, h4⟩
      exact List.forall_mem_cons.2 ⟨he, h3⟩

theorem perm_insert (tree : TypeTree) (new : Candidate) (es : List Candidate) :
    (tree.insert new es).Perm (new :: es) := by
  obtain ⟨before, after, h1, h2, -, -⟩ := insert_split tree new es
  rw [h2, h1]
  exact List.perm_middle

theorem Ordered.clear {b : Candidate} {rest : List Candidate} {t : TypeId}
    (h : tree.Ordered (b :: rest)) (hb : b.target ∈ tree.ancestors t) {f : Candidate}
    (hf : f ∈ b :: rest) : t ≠ f.target ∧ t ∉ tree.ancestors f.target := by
  rcases List.mem_cons.1 hf with rfl | hf
  · refine ⟨fun he => not_mem_ancestors_self tree t (by rwa [← he] at hb), fun hm => ?_⟩
    exact not_mem_ancestors_self tree _ (mem_ancestors_trans hb hm)
  · have hn := (List.pairwise_cons.1 h).1 f hf
    exact ⟨fun he => hn (he ▸ hb), fun hm => hn (mem_ancestors_trans hb hm)⟩

theorem ordered_insert (h : ∀ {tree' : TypeTree}, tree.Grows tree' → tree'.Ordered es)
    (hk : tree.Known new es) (hg : tree.Grows tree') : tree'.Ordered (tree.insert new es) := by
  obtain ⟨before, after, h1, h2, h3, h4⟩ := insert_split tree new es
  have ho := h hg
  rw [h1] at ho hk
  obtain ⟨hbefore, hafter, hcross⟩ := List.pairwise_append.1 ho
  have hback : ∀ e ∈ before, e.target ∉ tree'.ancestors new.target := by
    intro e he
    rcases hk e (List.mem_append_left _ he) with ht | hr
    · rw [ht]
      exact not_mem_ancestors_self tree' _
    · rw [hg.ancestors hr]
      exact h3 e he
  have hfront : ∀ f ∈ after, new.target ∉ tree'.ancestors f.target := by
    rcases h4 with rfl | ⟨b, rest, rfl, hb⟩
    · simp
    · rw [← hg.ancestors (registered_of_mem_ancestors hb)] at hb
      exact fun f hf => (Ordered.clear hafter hb hf).2
  rw [h2, Ordered, List.pairwise_append, List.pairwise_cons]
  refine ⟨hbefore, ⟨hfront, hafter⟩, fun e he f hf => ?_⟩
  rcases List.mem_cons.1 hf with rfl | hf
  · exact hback e he
  · exact hcross e he f hf

theorem filter_insert (h : tree.Ordered es) (t : TypeId) :
    (tree.insert new es).filter (·.target = t) = (es ++ [new]).filter (·.target = t) := by
  obtain ⟨before, after, h1, h2, -, h4⟩ := insert_split tree new es
  rw [h1] at h
  rw [h2, h1]
  by_cases ht : new.target = t
  · have hnone : after.filter (·.target = t) = [] := by
      rcases h4 with rfl | ⟨b, rest, rfl, hb⟩
      · rfl
      · apply List.filter_eq_nil_iff.2
        intro f hf
        have hne := (Ordered.clear (List.pairwise_append.1 h).2.1 hb hf).1
        simpa [← ht] using Ne.symm hne
    simp [ht, hnone]
  · simp [ht]

theorem Ranking.insert (h : tree.Ranking added es) (hk : tree.Known new es) :
    tree.Ranking (added ++ [new]) (tree.insert new es) where
  perm := by
    calc
      List.Perm (tree.insert new es) (new :: es) := perm_insert tree new es
      List.Perm _ (new :: added) := h.perm.cons new
      List.Perm _ (added ++ [new]) := (List.perm_append_singleton new added).symm
  ordered := ordered_insert h.ordered hk
  stable := by
    intro t
    rw [filter_insert (h.ordered (Grows.refl tree)), List.filter_append, List.filter_append,
      h.stable]

end TypeTree

namespace Catalog

variable {c : Catalog} {new : Candidate} {es : List Candidate}

theorem registered_of_parent {t : TypeId} {p : Option TypeId} (h : c.parent t = .ok p) :
    c.tree.registered t = true := by
  cases hi : c.info .parent t with
  | error f => simp [parent, hi, Except.map] at h
  | ok i => exact TypeTree.registered_iff.2 ⟨i, info_eq_ok hi⟩

theorem registered_of_descends {t a : TypeId} {b : Bool} (h : c.descends t a = .ok b) :
    c.tree.registered t = true := by
  rw [descends] at h
  split at h
  · cases h
  all_goals
    rename_i hp
    exact registered_of_parent hp

theorem known_of_place {placed : List Candidate} (h : c.place new es = .ok placed) :
    c.tree.Known new es := by
  by_cases hr : c.tree.registered new.target = true
  · exact fun _ _ => Or.inr hr
  induction es generalizing placed with
  | nil => exact fun _ he => by cases he
  | cons e es ih =>
    -- The walk from an unregistered type fails, so the two targets are the same.
    have he : e.target = new.target := by
      by_contra hne
      rw [place, moreSpecific, if_neg (Ne.symm hne)] at h
      cases hd : c.descends new.target e.target with
      | error f => rw [hd] at h; cases h
      | ok b => exact hr (registered_of_descends hd)
    rw [place, moreSpecific, if_pos he.symm] at h
    cases hp : c.place new es with
    | error f => rw [hp] at h; cases h
    | ok rest => exact List.forall_mem_cons.2 ⟨Or.inl he, ih hp⟩

def Falters (c : Catalog) (new : Candidate) (es : List Candidate) (f : Failure) : Prop :=
  ∃ before e after, es = before ++ e :: after ∧
    (∀ x ∈ before, c.moreSpecific new x = .ok false) ∧ c.moreSpecific new e = .error f

theorem falters_cons {x : Candidate} {f : Failure} :
    c.Falters new (x :: es) f ↔
      c.moreSpecific new x = .error f ∨ c.moreSpecific new x = .ok false ∧ c.Falters new es f := by
  constructor
  · rintro ⟨before, e, after, hes, hb, he⟩
    cases before with
    | nil =>
      obtain ⟨rfl, rfl⟩ := List.cons.inj hes
      exact Or.inl he
    | cons y before =>
      obtain ⟨rfl, rfl⟩ := List.cons.inj hes
      obtain ⟨hx, hb⟩ := List.forall_mem_cons.1 hb
      exact Or.inr ⟨hx, before, e, after, rfl, hb, he⟩
  · rintro (hx | ⟨hx, before, e, after, rfl, hb, he⟩)
    · exact ⟨[], x, es, rfl, by simp, hx⟩
    · exact ⟨x :: before, e, after, rfl, List.forall_mem_cons.2 ⟨hx, hb⟩, he⟩

/-- The search for a place fails where it falters and nowhere else. -/
theorem place_eq_error_iff {f : Failure} : c.place new es = .error f ↔ c.Falters new es f := by
  induction es with
  | nil => simp [place, Falters]
  | cons x es ih =>
    rw [place, falters_cons, ← ih]
    cases hx : c.moreSpecific new x with
    | error g => simp
    | ok b =>
      cases b with
      | true => simp
      | false => cases c.place new es <;> simp [Except.map]

end Catalog

end ScopedMethods
