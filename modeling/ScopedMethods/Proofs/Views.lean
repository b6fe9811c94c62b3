import ScopedMethods.Proofs.Dispatch
import ScopedMethods.Proofs.Library

/-!
# What a worker sees

The choices that the categories of the showcase call for, in a worker's outer scope and in
the scope of integers within it, and the texts that come of them.
-/

set_option autoImplicit false

namespace ScopedMethods.Showcase

/-- The choice is the one that is due by what the scopes registered. -/
theorem choose_eq {tree : TypeTree} {o : Outlook} {ls : List Laying} {name : String} {ty : TypeId}
    (h : o.Built ls) (hd : Laying.Dated tree ls) {c : Choice}
    (hc : c.Due tree ty (o.level ≠ 0) (Laying.registrations name ls)) :
    choose tree ty name o = c := by
  have hrank : tree.Ranking (Laying.registrations name ls) (o.lineage name).entries := by
    rw [Outlook.built_entries h name]
    exact Laying.ranking_reference hd name
  have hnone : o.lineage name = [] ↔ Laying.registrations name ls = [] := by
    rw [Outlook.built_eq_nil h, Laying.registrations_eq_nil]
  exact (choose_due ty hnone hrank).unique hc

def outerCategory (index : UInt64) : TypeId := if index % 2 = 0 then verbose else terse

def laying (ty : TypeId) : Laying := ⟨0, library, [ty]⟩

theorem offers_describe_verbose : (laying verbose).offers "describe" =
    [.ofMethod numberDescribed, .ofMethod stringDescribed] := by
  simp [Laying.offers, laying, laid_verbose, numberDescribed, stringDescribed, stringShouted]

theorem offers_shout_verbose : (laying verbose).offers "shout" = [.ofMethod stringShouted] := by
  simp [Laying.offers, laying, laid_verbose, numberDescribed, stringDescribed, stringShouted]

theorem offers_describe_terse : (laying terse).offers "describe" = [.ofMethod numberShown] := by
  simp [Laying.offers, laying, laid_terse, numberShown]

theorem offers_shout_terse : (laying terse).offers "shout" = [] := by
  simp [Laying.offers, laying, laid_terse, numberShown]

theorem offers_describe_integerCategory : (laying integerCategory).offers "describe" =
    [.ofMethod numberDescribed, .ofMethod stringDescribed, .ofMethod integerDescribed] := by
  simp [Laying.offers, laying, laid_integerCategory, numberDescribed, stringDescribed,
    stringShouted, integerDescribed]

theorem offers_shout_integerCategory :
    (laying integerCategory).offers "shout" = [.ofMethod stringShouted] := by
  simp [Laying.offers, laying, laid_integerCategory, numberDescribed, stringDescribed,
    stringShouted, integerDescribed]

theorem dated_library (types : List TypeId) : Laying.Dated library (types.map laying) where
  past := by
    intro l hl
    obtain ⟨ty, -, rfl⟩ := List.mem_map.1 hl
    exact ⟨library_targeted, .refl library⟩
  nested := List.pairwise_map.2 (List.pairwise_of_forall fun _ _ => .refl library)

/-- The first registration for the very type of the receiver is the best one. -/
theorem best_of_exact (tree : TypeTree) {ty : TypeId} (before after : List Candidate)
    {e : Candidate} (he : e.target = ty) (hb : ∀ f ∈ before, f.target ≠ ty) :
    tree.Best ty (before ++ e :: after) e where
  applies := decide_eq_true (by rw [he]; exact List.mem_cons_self)
  deepest := by
    intro f _ hf
    rw [he]
    exact List.mem_cons.1 (of_decide_eq_true hf)
  earliest := ⟨before, after, rfl, by rw [he]; exact hb⟩

variable {o : Outlook} {index : UInt64}

theorem inside_of_built {l : Laying} {outer : List Laying} (h : o.Built (l :: outer)) :
    o.level ≠ 0 := by
  obtain ⟨o₀, hover, -⟩ := h
  exact Outlook.level_ne_zero hover.level

theorem level_of_built {l : Laying} (h : o.Built [l]) : o.level.toNat = 1 := by
  obtain ⟨o₀, hover, rfl⟩ := h
  exact hover.level

theorem choose_inner (h : o.Built [laying integerCategory, laying (outerCategory index)]) :
    choose library integer "describe" o = .call (.ofMethod integerDescribed) ∧
      choose library string "shout" o = .call (.ofMethod stringShouted) := by
  have h0 := inside_of_built h
  have hd := dated_library [integerCategory, outerCategory index]
  constructor
  · refine choose_eq h hd ⟨h0, ?_⟩
    rw [Laying.registrations, offers_describe_integerCategory]
    have houter : ∀ e ∈ Laying.registrations "describe" [laying (outerCategory index)],
        e.target ≠ integer := by
      rw [Laying.registrations, outerCategory]
      split
      · rw [offers_describe_verbose]
        decide
      · rw [offers_describe_terse]
        decide
    have hbest := best_of_exact library _ [] (e := .ofMethod integerDescribed) rfl
      (List.forall_mem_append.2 ⟨houter, show ∀ e ∈ [Candidate.ofMethod numberDescribed,
        .ofMethod stringDescribed], e.target ≠ integer by decide⟩)
    rwa [List.append_assoc] at hbest
  · refine choose_eq h hd ⟨h0, ?_⟩
    rw [Laying.registrations, Laying.registrations, offers_shout_integerCategory, outerCategory]
    split
    · rw [offers_shout_verbose]
      exact best_of_exact library [] _ rfl (by simp)
    · rw [offers_shout_terse]
      exact best_of_exact library [] _ rfl (by simp)

theorem choose_outer (h : o.Built [laying (outerCategory index)]) :
    choose library number "describe" o =
        .call (.ofMethod (if index % 2 = 0 then numberDescribed else numberShown)) ∧
      choose library string "shout" o =
        if index % 2 = 0 then .call (.ofMethod stringShouted) else .notOverlaid := by
  have h0 := inside_of_built h
  have hd := dated_library [outerCategory index]
  rw [outerCategory] at h hd
  by_cases heven : index % 2 = 0
  · simp only [heven, if_true] at h hd ⊢
    constructor
    · refine choose_eq h hd ⟨h0, ?_⟩
      rw [Laying.registrations, offers_describe_verbose]
      exact best_of_exact library [] _ rfl (by simp)
    · refine choose_eq h hd ⟨h0, ?_⟩
      rw [Laying.registrations, offers_shout_verbose]
      exact best_of_exact library [] _ rfl (by simp)
  · simp only [heven, if_false] at h hd ⊢
    constructor
    · refine choose_eq h hd ⟨h0, ?_⟩
      rw [Laying.registrations, offers_describe_terse]
      exact best_of_exact library [] _ rfl (by simp)
    · refine choose_eq h hd ⟨h0, ?_⟩
      rw [Laying.registrations, offers_shout_terse]
      rfl

theorem toUpper_of_isDigit {c : Char} (h : c.isDigit = true) : c.toUpper = c := by
  have hc : c.val ≤ '9'.val := of_decide_eq_true (Bool.and_eq_true_iff.1 h).2
  refine dif_neg ?_
  rintro ⟨ha, -⟩
  exact absurd (UInt32.le_trans ha hc) (by decide)

theorem shouted_greeting (index : UInt64) :
    shouted s!"hello from {index}" = s!"HELLO FROM {index}!" := by
  have hdigits : (toString index).toList.map Char.toUpper = (toString index).toList := by
    conv_rhs => rw [← List.map_id (toString index).toList]
    apply List.map_congr_left
    intro c hc
    rw [show toString index = Nat.repr index.toNat from rfl, Nat.toList_repr] at hc
    exact toUpper_of_isDigit (Nat.isDigit_of_mem_toDigits (by decide) (by decide) hc)
  show (("hello from " ++ toString index).map Char.toUpper) ++ "!" =
    "HELLO FROM " ++ toString index ++ "!"
  rw [← String.toList_inj]
  simp only [String.toList_append, String.toList_map, List.map_append, hdigits]
  rfl

def innerView (index : UInt64) (x : Float) : String :=
  s!"the integer {Decimal.ofFloat x} / HELLO FROM {index}!"

def outerView (index : UInt64) (x : Float) : String :=
  if index % 2 = 0 then s!"the number {Decimal.ofFloat x} / HELLO FROM {index}!"
  else s!"{Decimal.ofFloat x} / <shout: not overlaid>"

theorem greeted (a b : String) (index : UInt64) :
    a ++ b ++ " / " ++ shouted s!"hello from {index}" =
      a ++ b ++ " / HELLO FROM " ++ toString index ++ "!" := by
  rw [shouted_greeting]
  show a ++ b ++ " / " ++ ("HELLO FROM " ++ toString index ++ "!") =
    a ++ b ++ (" / " ++ "HELLO FROM ") ++ toString index ++ "!"
  simp only [String.append_assoc]

end ScopedMethods.Showcase
