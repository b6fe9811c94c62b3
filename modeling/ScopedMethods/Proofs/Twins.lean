import ScopedMethods.Proofs.Conservation
import ScopedMethods.Proofs.Isolation

/-!
# Arenas that recycle differently

Which idle stacks an arena has is no part of what its threads see: a stack at level
zero shows what no stack does. Twins are two arenas that may differ in these stacks
and in the identities of stacks, chains and counters. Whatever a thread does in one
it can do in the other, and they stay twins.
-/

set_option autoImplicit false

namespace ScopedMethods

open Arena (depthIn)

namespace Act

inductive Kindred : Act → Act → Prop
  | same (act : Act) : Kindred act act
  | created (key : Nat) {o o' : Options} (limit : o'.maxDepth = o.maxDepth) :
      Kindred (.createRealm key o) (.createRealm key o')

variable {act act' : Act}

namespace Kindred

theorem symm (h : Kindred act act') : Kindred act' act := by
  cases h with
  | same => exact .same _
  | created key limit => exact .created key limit.symm

theorem governs (h : Kindred act act') : act'.governs = act.governs := by
  cases h <;> rfl

theorem limit (h : Kindred act act') (key : Nat) {o o' : Options} (ho : o'.maxDepth = o.maxDepth) :
    (act'.governed key o').maxDepth = (act.governed key o).maxDepth := by
  cases h with
  | created k limit =>
    simp only [governed]
    split
    · exact limit
    · exact ho
  | same =>
    cases act with
    | createRealm k new =>
      simp only [governed]
      split
      · rfl
      · exact ho
    | destroyRealm k =>
      simp only [governed]
      split
      · rfl
      · exact ho
    | _ => exact ho

end Kindred

end Act

theorem Outlook.Alike.symm {o o' : Outlook} (h : o.Alike o') : o'.Alike o :=
  ⟨h.level.symm, fun name => (h.ladder name).symm⟩

theorem Outlook.Alike.weight {o o' : Outlook} (h : o.Alike o') (name : String) :
    o'.weight name = o.weight name :=
  congrArg List.length (congrFun h.entries name)

namespace Arena

variable {a a' b b' : Arena} {t u key : Nat} {act act' : Act} {e e' : Ending}

/-- Arenas that differ in which idle stacks there are, and in identities. -/
structure Twin (a b : Arena) : Prop where
  left : a.Sound a.frames
  right : b.Sound b.frames
  catalog : b.catalog = a.catalog
  limit : ∀ key, (b.options key).maxDepth = (a.options key).maxDepth
  traced : b.store.traced = a.store.traced
  alike : ∀ t key, (a.outlook t key).Alike (b.outlook t key)
  frames : ∀ t, (b.frames t).map Frame.realm = (a.frames t).map Frame.realm
  inEffect : ∀ key name, b.inEffect key name = a.inEffect key name
  openScopes : ∀ key, b.openScopes key = a.openScopes key

theorem depthIn_realms (key : Nat) (fs : List Frame) :
    depthIn key fs = (fs.map Frame.realm).count key := by
  rw [List.count, List.countP_map]
  exact List.countP_congr fun f _ => by simp

theorem depthIn_congr {fs gs : List Frame} (h : gs.map Frame.realm = fs.map Frame.realm)
    (key : Nat) : depthIn key gs = depthIn key fs := by
  rw [depthIn_realms, depthIn_realms, h]

theorem Step.ending_ne (hs : Step t act a e a') (he : ∀ key types, act ≠ .enter key types) :
    e ≠ .entered := by
  rcases hs.change with ⟨key, types, _, h, _, _, _, _⟩ | ⟨h, _, _⟩
  · exact absurd h (he key types)
  · exact h

namespace Twin

theorem new (v : Option Log.Verbosity) : Twin (Arena.new v) (Arena.new v) where
  left := sound_new v
  right := sound_new v
  catalog := rfl
  limit := fun _ => rfl
  traced := rfl
  alike := fun _ _ => .refl _
  frames := fun _ => rfl
  inEffect := fun _ _ => rfl
  openScopes := fun _ => rfl

theorem symm (h : Twin a b) : Twin b a where
  left := h.right
  right := h.left
  catalog := h.catalog.symm
  limit := fun key => (h.limit key).symm
  traced := h.traced.symm
  alike := fun t key => (h.alike t key).symm
  frames := fun t => (h.frames t).symm
  inEffect := fun key name => (h.inEffect key name).symm
  openScopes := fun key => (h.openScopes key).symm

variable (ht : Twin a b)

include ht

theorem depth (u key : Nat) : depthIn key (b.frames u) = depthIn key (a.frames u) :=
  depthIn_congr (ht.frames u) key

theorem usageCount : b.usageCount = a.usageCount := by
  funext key name
  rw [usageCount_eq ht.left, usageCount_eq ht.right, ht.inEffect]

theorem active : b.active = a.active := by
  funext key
  rw [active_eq ht.left, active_eq ht.right, ht.openScopes]

theorem allowed (hk : Act.Kindred act act') (hp : a.Allowed t act) : b.Allowed t act' where
  created := by
    rintro key o rfl u
    rw [ht.depth]
    cases hk with
    | same => exact hp.created key o rfl u
    | created _ _ => exact hp.created key _ rfl u
  destroyed := by
    rintro key rfl u
    cases hk
    rw [ht.depth]
    exact hp.destroyed key rfl u
  entered := by
    rintro key types rfl
    cases hk
    rw [ht.limit, ht.depth]
    exact hp.entered key types rfl

/-- What one thread does on both sides keeps twins if it keeps their outlooks alike. -/
theorem both (ha : a'.Sound a'.frames) (hb : b'.Sound b'.frames) (hs : Shift t a a')
    (hs' : Shift t b b') (hc : b'.catalog = a'.catalog)
    (hl : ∀ key, (b'.options key).maxDepth = (a'.options key).maxDepth)
    (halike : ∀ key, (a'.outlook t key).Alike (b'.outlook t key))
    (hf : ∀ u, (b'.frames u).map Frame.realm = (a'.frames u).map Frame.realm) : Twin a' b' where
  left := ha
  right := hb
  catalog := hc
  limit := hl
  traced := by rw [hs'.store.traced, hs.store.traced, ht.traced]
  alike := by
    intro u key
    by_cases hu : u = t
    · rw [hu]
      exact halike key
    · rw [hs.others hu, hs'.others hu]
      exact ht.alike u key
  frames := hf
  inEffect := by
    intro key name
    have h := hs.inEffect key name
    have h' := hs'.inEffect key name
    rw [(ht.alike t key).weight, (halike key).weight, ht.inEffect] at h'
    omega
  openScopes := by
    intro key
    have h := hs.openScopes key
    have h' := hs'.openScopes key
    rw [(ht.alike t key).level, (halike key).level, ht.openScopes] at h'
    omega

theorem skip (hs : Step t act a e a') (hg : act.governs = false)
    (h0 : act.leaving (a.frames t).length = 0) (he : ∀ k types, act ≠ .enter k types) :
    Twin a' b := by
  obtain ⟨ho, hf⟩ := hs.unmoved h0 he
  have hset := hs.settled hg
  refine ht.both hs.sound ht.right hs.shift (.refl t b) ?_ ?_ ?_ ?_
  · rw [hset.catalog, ht.catalog]
  · intro key
    rw [hset.options, ht.limit]
  · intro key
    rw [ho]
    exact ht.alike t key
  · intro u
    rw [hf]
    exact ht.frames u

theorem governed (hk : Act.Kindred act act') (hp : a.Allowed t act) (hg : act.governs = true) :
    Twin (a.step t act).2 (b.step t act').2 := by
  have hs := step_allowed ht.left hp
  have hs' := step_allowed ht.right (ht.allowed hk hp)
  have hg' : act'.governs = true := hk.governs.trans hg
  obtain ⟨ho, hf⟩ := hs.unmoved (Act.leaving_of_governs hg) (Act.ne_enter_of_governs hg)
  obtain ⟨ho', hf'⟩ := hs'.unmoved (Act.leaving_of_governs hg') (Act.ne_enter_of_governs hg')
  refine ht.both hs.sound hs'.sound hs.shift hs'.shift ?_ ?_ ?_ ?_
  · cases hk with
    | same => exact governed_catalog hg ht.catalog
    | created k _ =>
      show ((b.withThread t).createRealm t k _).catalog =
        ((a.withThread t).createRealm t k _).catalog
      rw [catalog_createRealm, catalog_createRealm, catalog_withThread, catalog_withThread,
        ht.catalog]
  · intro key
    rw [governed_options hg, governed_options hg']
    exact hk.limit key (ht.limit key)
  · intro key
    rw [ho, ho']
    exact ht.alike t key
  · intro u
    rw [hf, hf']
    exact ht.frames u

theorem enter_answer_eq {types : List TypeId} (hp : a.Allowed t (.enter key types)) :
    (b.step t (.enter key types)).1 = (a.step t (.enter key types)).1 :=
  enter_answer_congr ht.left ht.right hp (ht.allowed (.same _) hp) ht.catalog (ht.limit key)
    ht.traced (ht.alike t key)

/-- An act that enters a scope on both sides or on neither has the same effect on what its
thread sees, and on the scopes that the thread is inside of. -/
theorem changed (hs : Step t act a e a') (hs' : Step t act b e' b')
    (he : e' = .entered ↔ e = .entered) :
    (∀ key, (a'.outlook t key).Alike (b'.outlook t key)) ∧
      (b'.frames t).map Frame.realm = (a'.frames t).map Frame.realm := by
  rcases hs.change with ⟨key, types, _, h, hend, hf, ho, hothers⟩ | ⟨hend, hf, ho⟩
  · rcases hs'.change with ⟨_, _, _, h', _, hf', ho', hothers'⟩ | ⟨hend', _, _⟩
    · subst h
      cases h'
      rw [ht.catalog] at ho'
      refine ⟨fun k => ?_, ?_⟩
      · by_cases hk : k = key
        · rw [hk]
          exact (ht.alike t key).overlay ho ho'
        · rw [hothers k hk, hothers' k hk]
          exact ht.alike t k
      · rw [hf, hf', List.map_cons, List.map_cons, ht.frames]
    · exact absurd (he.2 hend) hend'
  · rcases hs'.change with ⟨_, _, _, _, hend', _, _, _⟩ | ⟨_, hf', ho'⟩
    · exact absurd (he.1 hend') hend
    · have hlen : (b.frames t).length = (a.frames t).length := by
        simpa using congrArg List.length (ht.frames t)
      rw [hlen] at hf' ho'
      refine ⟨fun k => ?_, ?_⟩
      · have hsame : depthIn k ((b.frames t).take (act.leaving (a.frames t).length)) =
            depthIn k ((a.frames t).take (act.leaving (a.frames t).length)) :=
          depthIn_congr (by rw [List.map_take, List.map_take, ht.frames]) k
        rw [ho, ho', hsame]
        exact (ht.alike t k).leaves _
      · rw [hf, hf', List.map_drop, List.map_drop, ht.frames]

theorem ungoverned (hp : a.Allowed t act) (hg : act.governs = false) :
    Twin (a.step t act).2 (b.step t act).2 := by
  have hs := step_allowed ht.left hp
  have hs' := step_allowed ht.right (ht.allowed (.same act) hp)
  have hset := hs.settled hg
  have hset' := hs'.settled hg
  have hend : (b.step t act).1 = .entered ↔ (a.step t act).1 = .entered := by
    by_cases hact : ∃ key types, act = .enter key types
    · obtain ⟨key, types, rfl⟩ := hact
      rw [ht.enter_answer_eq hp]
    · have hne : ∀ key types, act ≠ .enter key types := fun key types h => hact ⟨key, types, h⟩
      exact iff_of_false (hs'.ending_ne hne) (hs.ending_ne hne)
  obtain ⟨halike, hf⟩ := ht.changed hs hs' hend
  refine ht.both hs.sound hs'.sound hs.shift hs'.shift ?_ ?_ halike fun u => ?_
  · rw [hset'.catalog, hset.catalog, ht.catalog]
  · intro key
    rw [hset'.options, hset.options, ht.limit]
  · by_cases hu : u = t
    · rw [hu, hf]
    · rw [hs.others u hu, hs'.others u hu, ht.frames]

theorem step (hk : Act.Kindred act act') (hp : a.Allowed t act) :
    Twin (a.step t act).2 (b.step t act').2 := by
  cases hg : act.governs with
  | true => exact ht.governed hk hp hg
  | false =>
    cases hk with
    | same => exact ht.ungoverned hp hg
    | created => cases hg

theorem cut (t : Nat) : Twin (a.cutOff t) (b.cutOff t) := by
  obtain ⟨h1, h2, h3, h4⟩ := cutOff_spec ht.left t
  obtain ⟨h1', h2', h3', h4'⟩ := cutOff_spec ht.right t
  have hnil : (a.cutOff t).frames t = [] := by rw [h4, Function.update_self]
  have hnil' : (b.cutOff t).frames t = [] := by rw [h4', Function.update_self]
  refine ht.both h1 h1' h2 h2' ?_ ?_ ?_ ?_
  · rw [h3'.catalog, h3.catalog, ht.catalog]
  · intro key
    rw [h3'.options, h3.options, ht.limit]
  · intro key
    rw [h1.outside hnil, h1'.outside hnil']
    exact .refl _
  · intro u
    by_cases hu : u = t
    · rw [hu, hnil, hnil']
    · rw [h4, h4', Function.update_of_ne hu, Function.update_of_ne hu, ht.frames]

end Twin

end Arena

end ScopedMethods
