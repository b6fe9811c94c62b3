import ScopedMethods.Proofs.Sightings

/-!
# Isolation of threads and realms

A run is compared with what remains of it when other threads and other realms
are left out. The two arenas mirror each other: the thread has the same level
and the same candidates in both, though not the same chains, and what is common
to all threads of a realm does not show through.
-/

set_option autoImplicit false

namespace ScopedMethods

open Arena (depthIn)

/-- What remains of an act if one thread and one realm are looked at alone, where the
acting thread is inside of the given scopes. Changes to types and faults remain, and the
making and the end of the realm; an exception passes through the scopes of the realm. -/
def Act.remains (t key u : Nat) (fs : List Frame) (act : Act) : Option Act :=
  match act with
  | .register _ _ | .declare _ _ | .setFault _ _ _ => some act
  | .createRealm k _ | .destroyRealm k => if k = key then some act else none
  | .enter k _ | .lookup k _ | .activeHere k | .currentLevel k | .nameUsage k _
  | .requestReclaim k => if u = t ∧ k = key then some act else none
  | .leave => if u = t ∧ depthIn key (fs.take 1) ≠ 0 then some .leave else none
  | .raise n =>
    if u = t ∧ depthIn key (fs.take (max n 1)) ≠ 0 then
      some (.raise (depthIn key (fs.take (max n 1))))
    else none
  | .exit | .setNickname _ _ => if u = t then some act else none

def Act.governed (key : Nat) (o : Options) : Act → Options
  | .createRealm k new => if k = key then new else o
  | .destroyRealm k => if k = key then {} else o
  | _ => o

namespace Act

variable {t key u n : Nat} {fs : List Frame} {act act' : Act}

theorem leaving_of_governs (h : act.governs = true) : act.leaving n = 0 := by
  cases act <;> first | rfl | simp [governs] at h

theorem ne_enter_of_governs (h : act.governs = true) (k : Nat) (types : List TypeId) :
    act ≠ .enter k types := by
  rintro rfl
  simp [governs] at h

theorem remains_of_governs (hg : act.governs = true) (h : act.remains t key u fs = some act') :
    act' = act := by
  cases act <;> simp_all [governs, remains]

theorem own_of_remains (hg : act.governs = false) (h : act.remains t key u fs = some act') :
    u = t ∧ act'.governs = false := by
  cases act <;> simp_all [governs, remains]
  all_goals
    obtain ⟨-, rfl⟩ := h
    rfl

theorem enter_of_remains {k : Nat} {types : List TypeId}
    (h : act.remains t key u fs = some (.enter k types)) : act = .enter k types ∧ k = key := by
  cases act <;> simp_all [remains]

theorem create_of_remains {k : Nat} {o : Options}
    (h : act.remains t key u fs = some (.createRealm k o)) :
    act = .createRealm k o ∧ k = key := by
  cases act <;> simp_all [remains]

theorem destroy_of_remains {k : Nat} (h : act.remains t key u fs = some (.destroyRealm k)) :
    act = .destroyRealm k ∧ k = key := by
  cases act <;> simp_all [remains]

theorem leaving_of_none (h : act.remains t key t fs = none) :
    depthIn key (fs.take (act.leaving fs.length)) = 0 := by
  cases act <;> simp_all [remains, leaving, depthIn]

theorem leaving_of_remains (hg : act.governs = false) (h : act.remains t key t fs = some act') :
    act'.leaving (depthIn key fs) = depthIn key (fs.take (act.leaving fs.length)) := by
  cases act with
  | leave =>
    simp only [remains, true_and] at h
    split at h
    · rename_i h0
      cases h
      have hle : depthIn key (fs.take 1) ≤ 1 :=
        List.countP_le_length.trans (List.length_take_le 1 fs)
      show 1 = depthIn key (fs.take 1)
      omega
    · cases h
  | raise n =>
    simp only [remains, true_and] at h
    split at h
    · rename_i h0
      cases h
      show max (depthIn key (fs.take (max n 1))) 1 = depthIn key (fs.take (max n 1))
      omega
    · cases h
  | exit =>
    simp only [remains, if_true] at h
    cases h
    show depthIn key fs = depthIn key (fs.take fs.length)
    rw [List.take_length]
  | _ =>
    simp_all [remains, governs]
    all_goals
      obtain ⟨-, rfl⟩ := h
      rfl

theorem ne_enter_of_remains (h : act.remains t key u fs = some act')
    (he : ∀ k types, act' ≠ .enter k types) (k : Nat) (types : List TypeId) :
    act ≠ .enter k types := by
  rintro rfl
  simp only [remains] at h
  split at h
  · cases h
    exact he k types rfl
  · cases h

theorem realm?_of_remains (h : act.remains t key u fs = some act') : act'.realm? = act.realm? := by
  cases act <;> simp_all [remains]
  all_goals
    obtain ⟨-, rfl⟩ := h
    rfl

theorem eq_of_remains (h : act.remains t key u fs = some act') (hr : act.realm? = some key) :
    act' = act := by
  cases act <;> simp_all [remains, realm?]

theorem elsewhere_of_none (h : act.remains t key u fs = none) :
    ¬ (u = t ∧ act.realm? = some key) := by
  rintro ⟨rfl, hr⟩
  cases act <;> simp_all [remains, realm?]

end Act

namespace Arena

variable {a a' b b' : Arena} {t key u k : Nat} {act act' : Act} {e e' : Ending}

theorem tree_register (tree : TypeTree) (c c' : Caller) (name : String) (parent : TypeId)
    (s s' : Store) : (tree.registerReporting c name parent s).2.1 =
      (tree.registerReporting c' name parent s').2.1 := by
  rw [TypeTree.registerReporting_eq, TypeTree.registerReporting_eq]
  cases tree.register name parent <;> rfl

theorem tree_declare (tree : TypeTree) (c c' : Caller) (on : TypeId) (d : MethodDecl)
    (s s' : Store) : (tree.declareReporting c on d s).2.1 =
      (tree.declareReporting c' on d s').2.1 := by
  rw [TypeTree.declareReporting_eq, TypeTree.declareReporting_eq]
  cases tree.declare on d with
  | error r => rfl
  | ok tree' =>
    simp only
    cases tree'.info? on <;> rfl

theorem catalog_destroyRealm : (a.destroyRealm u k).catalog = a.catalog := by
  rw [destroyRealm]
  cases a.realm? k <;> rfl

theorem options_destroyRealm (key : Nat) :
    (a.destroyRealm u k).options key = if k = key then {} else a.options key := by
  rw [options, realm?_destroyRealm]
  split <;> rfl

theorem catalog_createRealm (o : Options) : (a.createRealm u k o).catalog = a.catalog :=
  catalog_destroyRealm (a := { a with store := (Realm.create k o (a.caller u) a.store).2 })

theorem options_createRealm (o : Options) (key : Nat) :
    (a.createRealm u k o).options key = if k = key then o else a.options key := by
  rw [options, realm?_createRealm]
  split <;> rfl

theorem governed_catalog (hg : act.governs = true) (hc : b.catalog = a.catalog) :
    (b.step u act).2.catalog = (a.step u act).2.catalog := by
  have hcat : (b.withThread u).catalog = (a.withThread u).catalog := by
    rw [catalog_withThread, catalog_withThread, hc]
  cases act with
  | register name parent =>
    show (⟨((b.withThread u).catalog.tree.registerReporting _ name parent _).2.1,
      (b.withThread u).catalog.faults⟩ : Catalog) =
        ⟨((a.withThread u).catalog.tree.registerReporting _ name parent _).2.1, _⟩
    rw [hcat, tree_register]
  | declare on d =>
    show (⟨((b.withThread u).catalog.tree.declareReporting _ on d _).2.1,
      (b.withThread u).catalog.faults⟩ : Catalog) =
        ⟨((a.withThread u).catalog.tree.declareReporting _ on d _).2.1, _⟩
    rw [hcat, tree_declare]
  | setFault q ty on =>
    show (b.withThread u).catalog.setFault q ty on = (a.withThread u).catalog.setFault q ty on
    rw [hcat]
  | createRealm k o =>
    show ((b.withThread u).createRealm u k o).catalog = ((a.withThread u).createRealm u k o).catalog
    rw [catalog_createRealm, catalog_createRealm, hcat]
  | destroyRealm k =>
    show ((b.withThread u).destroyRealm u k).catalog = ((a.withThread u).destroyRealm u k).catalog
    rw [catalog_destroyRealm, catalog_destroyRealm, hcat]
  | _ => simp [Act.governs] at hg

theorem governed_options (hg : act.governs = true) (key : Nat) :
    (a.step u act).2.options key = act.governed key (a.options key) := by
  cases act with
  | createRealm k o =>
    show ((a.withThread u).createRealm u k o).options key = _
    rw [options_createRealm, options_withThread]
    rfl
  | destroyRealm k =>
    show ((a.withThread u).destroyRealm u k).options key = _
    rw [options_destroyRealm, options_withThread]
    rfl
  | register name parent => exact options_withThread key
  | declare on d => exact options_withThread key
  | setFault q ty on => exact options_withThread key
  | _ => simp [Act.governs] at hg

theorem governed_elsewhere {fs : List Frame} (hg : act.governs = true)
    (h : act.remains t key u fs = none) :
    (a.step u act).2.catalog = a.catalog ∧ (a.step u act).2.options key = a.options key := by
  rw [governed_options hg]
  cases act with
  | createRealm k o =>
    have hk : k ≠ key := by simpa [Act.remains] using h
    refine ⟨?_, if_neg hk⟩
    show ((a.withThread u).createRealm u k o).catalog = _
    rw [catalog_createRealm, catalog_withThread]
  | destroyRealm k =>
    have hk : k ≠ key := by simpa [Act.remains] using h
    refine ⟨?_, if_neg hk⟩
    show ((a.withThread u).destroyRealm u k).catalog = _
    rw [catalog_destroyRealm, catalog_withThread]
  | _ => simp [Act.governs, Act.remains] at hg h

theorem Step.unmoved (hs : Step u act a e a') (h0 : act.leaving (a.frames u).length = 0)
    (he : ∀ k types, act ≠ .enter k types) :
    (∀ w k, a'.outlook w k = a.outlook w k) ∧ ∀ w, a'.frames w = a.frames w := by
  rcases hs.change with ⟨k, types, _, h, _, _, _, _⟩ | ⟨-, hf, ho⟩
  · exact absurd h (he k types)
  · rw [h0] at hf ho
    constructor
    · intro w k
      by_cases hw : w = u
      · rw [hw, ho]
        rfl
      · exact hs.shift.others hw k
    · intro w
      by_cases hw : w = u
      · rw [hw, hf]
        rfl
      · exact hs.others w hw

/-- The second arena is the first one as far as a thread and a realm are concerned. -/
structure Mirror (t key : Nat) (a b : Arena) : Prop where
  full : a.Sound a.frames
  rest : b.Sound b.frames
  catalog : b.catalog = a.catalog
  options : b.options key = a.options key
  traced : b.store.traced = a.store.traced
  alike : (a.outlook t key).Alike (b.outlook t key)
  own : ∀ f ∈ b.frames t, f.realm = key
  others : ∀ u, u ≠ t → b.frames u = []
  alone : b.openScopes key = (b.outlook t key).level.toNat

theorem mirror_new (v : Option Log.Verbosity) (t key : Nat) :
    Mirror t key (Arena.new v) (Arena.new v) where
  full := sound_new v
  rest := sound_new v
  catalog := rfl
  options := rfl
  traced := rfl
  alike := .refl _
  own := fun _ h => nomatch h
  others := fun _ _ => rfl
  alone := rfl

namespace Mirror

variable (hm : Mirror t key a b)

include hm

theorem depth : depthIn key (b.frames t) = depthIn key (a.frames t) := by
  rw [← hm.rest.depth, ← hm.full.depth, hm.alike.level]

theorem length : (b.frames t).length = depthIn key (a.frames t) := by
  rw [← hm.depth]
  exact (List.countP_eq_length.2 fun f hf => decide_eq_true (hm.own f hf)).symm

theorem depth_take (n : Nat) :
    depthIn key ((b.frames t).take n) = min n (depthIn key (a.frames t)) := by
  have hown : ∀ f ∈ (b.frames t).take n, f.realm = key := fun f hf =>
    hm.own f (List.mem_of_mem_take hf)
  have h : depthIn key ((b.frames t).take n) = ((b.frames t).take n).length :=
    List.countP_eq_length.2 fun f hf => decide_eq_true (hown f hf)
  rw [h, List.length_take, hm.length]

theorem allowed (hp : a.Allowed u act) (h : act.remains t key u (a.frames u) = some act') :
    b.Allowed u act' := by
  have hempty : (∀ w, depthIn key (a.frames w) = 0) → ∀ w, depthIn key (b.frames w) = 0 := by
    intro h0 w
    by_cases hw : w = t
    · rw [hw, hm.depth, h0]
    · rw [hm.others w hw]
      rfl
  constructor
  · rintro k o rfl
    obtain ⟨rfl, rfl⟩ := Act.create_of_remains h
    exact hempty (hp.created k o rfl)
  · rintro k rfl
    obtain ⟨rfl, rfl⟩ := Act.destroy_of_remains h
    exact hempty (hp.destroyed k rfl)
  · rintro k types rfl
    obtain ⟨rfl, rfl⟩ := Act.enter_of_remains h
    obtain ⟨rfl, -⟩ := Act.own_of_remains rfl h
    rw [hm.options, hm.depth]
    exact hp.entered k types rfl

theorem skip (hs : Step u act a e a') (hc : a'.catalog = a.catalog)
    (ho : a'.options key = a.options key) (hout : a'.outlook t key = a.outlook t key) :
    Mirror t key a' b where
  full := hs.sound
  rest := hm.rest
  catalog := by rw [hm.catalog, hc]
  options := by rw [hm.options, ho]
  traced := by rw [hm.traced, hs.shift.store.traced]
  alike := by
    rw [hout]
    exact hm.alike
  own := hm.own
  others := hm.others
  alone := hm.alone

theorem both (hs : Step u act a e a') (hs' : Step u act' b e' b')
    (hc : b'.catalog = a'.catalog) (ho : b'.options key = a'.options key)
    (hout : (a'.outlook t key).Alike (b'.outlook t key)) (hown : ∀ f ∈ b'.frames t, f.realm = key)
    (hothers : ∀ w, w ≠ t → b'.frames w = []) : Mirror t key a' b' where
  full := hs.sound
  rest := hs'.sound
  catalog := hc
  options := ho
  traced := by rw [hs'.shift.store.traced, hs.shift.store.traced, hm.traced]
  alike := hout
  own := hown
  others := hothers
  alone := by
    have h := hs'.shift.openScopes key
    have hold := hm.alone
    by_cases hu : u = t
    · subst hu
      omega
    · rw [hm.rest.outside (hm.others u hu), hs'.sound.outside (hothers u hu)] at h
      rw [hs'.shift.others (Ne.symm hu)]
      omega

theorem governed (hp : a.Allowed u act) (hp' : b.Allowed u act) (hg : act.governs = true) :
    Mirror t key (a.step u act).2 (b.step u act).2 := by
  have hs := step_allowed hm.full hp
  have hs' := step_allowed hm.rest hp'
  have hne := Act.ne_enter_of_governs hg
  obtain ⟨ho, -⟩ := hs.unmoved (Act.leaving_of_governs hg) hne
  obtain ⟨ho', hf'⟩ := hs'.unmoved (Act.leaving_of_governs hg) hne
  apply hm.both hs hs' (governed_catalog hg hm.catalog)
  · rw [governed_options hg, governed_options hg, hm.options]
  · rw [ho, ho']
    exact hm.alike
  · rw [hf']
    exact hm.own
  · intro w hw
    rw [hf', hm.others w hw]

theorem left (hp : a.Allowed t act) (hp' : b.Allowed t act') (hg : act.governs = false)
    (hg' : act'.governs = false) (he : ∀ k types, act ≠ .enter k types)
    (he' : ∀ k types, act' ≠ .enter k types)
    (hn : act'.leaving (b.frames t).length =
      depthIn key ((a.frames t).take (act.leaving (a.frames t).length))) :
    Mirror t key (a.step t act).2 (b.step t act').2 := by
  have hs := step_allowed hm.full hp
  have hs' := step_allowed hm.rest hp'
  have hc := hs.settled hg
  have hc' := hs'.settled hg'
  rcases hs.change with ⟨_, _, _, h, _, _, _, _⟩ | ⟨-, -, ho⟩
  · exact absurd h (he _ _)
  rcases hs'.change with ⟨_, _, _, h, _, _, _, _⟩ | ⟨-, hf', ho'⟩
  · exact absurd h (he' _ _)
  have hcount : depthIn key ((b.frames t).take (act'.leaving (b.frames t).length)) =
      depthIn key ((a.frames t).take (act.leaving (a.frames t).length)) := by
    have hle := List.Sublist.countP_le (p := fun f : Frame => decide (f.realm = key))
      (List.take_sublist (act.leaving (a.frames t).length) (a.frames t))
    rw [hm.depth_take, hn]
    exact Nat.min_eq_left hle
  apply hm.both hs hs'
  · rw [hc'.catalog, hc.catalog, hm.catalog]
  · rw [hc'.options, hc.options, hm.options]
  · rw [ho, ho', hcount]
    exact hm.alike.leaves _
  · intro f hf
    rw [hf'] at hf
    exact hm.own f (List.mem_of_mem_drop hf)
  · intro w hw
    rw [hs'.others w hw, hm.others w hw]

theorem enter_answer_eq {types : List TypeId} (hp : a.Allowed t (.enter key types))
    (hp' : b.Allowed t (.enter key types)) :
    (b.step t (.enter key types)).1 = (a.step t (.enter key types)).1 :=
  enter_answer_congr hm.full hm.rest hp hp' hm.catalog (congrArg Options.maxDepth hm.options)
    hm.traced hm.alike

theorem entered {types : List TypeId} (hp : a.Allowed t (.enter key types))
    (hp' : b.Allowed t (.enter key types)) :
    Mirror t key (a.step t (.enter key types)).2 (b.step t (.enter key types)).2 := by
  have hs := step_allowed hm.full hp
  have hs' := step_allowed hm.rest hp'
  have hc := hs.settled rfl
  have hc' := hs'.settled rfl
  have hend := hm.enter_answer_eq hp hp'
  have hcat :
      (b.step t (.enter key types)).2.catalog = (a.step t (.enter key types)).2.catalog := by
    rw [hc'.catalog, hc.catalog, hm.catalog]
  have hopt : (b.step t (.enter key types)).2.options key =
      (a.step t (.enter key types)).2.options key := by
    rw [hc'.options, hc.options, hm.options]
  have hothers : ∀ w, w ≠ t → (b.step t (.enter key types)).2.frames w = [] := by
    intro w hw
    rw [hs'.others w hw, hm.others w hw]
  rcases hs.change with ⟨k, ts, _, h, he, _, ho, _⟩ | ⟨he, _, ho⟩
  · cases h
    rcases hs'.change with ⟨k', ts', _, h', _, hf', ho', _⟩ | ⟨he', _, _⟩
    · cases h'
      rw [hm.catalog] at ho'
      apply hm.both hs hs' hcat hopt (hm.alike.overlay ho ho') _ hothers
      intro f hf
      rw [hf'] at hf
      rcases List.mem_cons.1 hf with rfl | hf
      · rfl
      · exact hm.own f hf
    · exact absurd (hend.trans he) he'
  · rcases hs'.change with ⟨k', ts', _, h', he', _, _, _⟩ | ⟨_, hf', ho'⟩
    · exact absurd (hend.symm.trans he') he
    · apply hm.both hs hs' hcat hopt _ _ hothers
      · rw [ho, ho']
        exact hm.alike
      · rw [hf']
        exact hm.own

theorem step_none (hp : a.Allowed u act) (h : act.remains t key u (a.frames u) = none) :
    Mirror t key (a.step u act).2 b := by
  have hs := step_allowed hm.full hp
  have hc : (a.step u act).2.catalog = a.catalog ∧
      (a.step u act).2.options key = a.options key := by
    cases hg : act.governs with
    | false => exact ⟨(hs.settled hg).catalog, (hs.settled hg).options key⟩
    | true => exact governed_elsewhere hg h
  apply hm.skip hs hc.1 hc.2
  by_cases hu : u = t
  · subst hu
    rcases hs.change with ⟨k, types, _, he, _, _, _, ho⟩ | ⟨_, _, ho⟩
    · subst he
      have hk : k ≠ key := by simpa [Act.remains] using h
      exact ho key (Ne.symm hk)
    · rw [ho, Act.leaving_of_none h]
      rfl
  · exact hs.shift.others (Ne.symm hu) key

theorem step_some (hp : a.Allowed u act) (h : act.remains t key u (a.frames u) = some act') :
    Mirror t key (a.step u act).2 (b.step u act').2 := by
  have hp' := hm.allowed hp h
  cases hg : act.governs with
  | true =>
    obtain rfl := Act.remains_of_governs hg h
    exact hm.governed hp hp' hg
  | false =>
    obtain ⟨rfl, hg'⟩ := Act.own_of_remains hg h
    by_cases he : ∃ k types, act' = .enter k types
    · obtain ⟨k, types, rfl⟩ := he
      obtain ⟨rfl, rfl⟩ := Act.enter_of_remains h
      exact hm.entered hp hp'
    · have he' : ∀ k types, act' ≠ .enter k types := fun k types e => he ⟨k, types, e⟩
      apply hm.left hp hp' hg hg' (Act.ne_enter_of_remains h he') he'
      rw [hm.length]
      exact Act.leaving_of_remains hg h

theorem sighting_eq (hp : a.Allowed t act) (hp' : b.Allowed t act) (hr : act.realm? = some key)
    (hroom : a.openScopes key < 2 ^ 64) : b.sighting t key t act = a.sighting t key t act := by
  cases act with
  | enter k types =>
    obtain rfl : k = key := Option.some.inj hr
    rw [sighting_own hr, sighting_own hr, hm.enter_answer_eq hp hp',
      enter_answer hm.full types (hp.entered k types rfl)]
    cases a.verdict t k types <;> rfl
  | lookup k name =>
    obtain rfl : k = key := Option.some.inj hr
    rw [sighting_lookup hm.full, sighting_lookup hm.rest, hm.alike.ladder]
  | currentLevel k =>
    obtain rfl : k = key := Option.some.inj hr
    rw [sighting_own hr, sighting_own hr, level_answer hm.full,
      level_answer hm.rest, hm.alike.level]
    rfl
  | activeHere k =>
    obtain rfl : k = key := Option.some.inj hr
    have hlevel := (b.outlook t k).level.toNat_lt
    have hroom' : b.openScopes k < 2 ^ 64 := by
      rw [hm.alone]
      omega
    rw [sighting_own hr, sighting_own hr, flag_answer hm.full t k hroom,
      flag_answer hm.rest t k hroom', hm.alike.level]
    rfl
  | nameUsage k name => rw [sighting_own hr, sighting_own hr]; rfl
  | requestReclaim k => rw [sighting_own hr, sighting_own hr]; rfl
  | createRealm k o => rw [sighting_own hr, sighting_own hr]; rfl
  | destroyRealm k => rw [sighting_own hr, sighting_own hr]; rfl
  | _ => cases hr

theorem sighting_some (hp : a.Allowed u act)
    (h : act.remains t key u (a.frames u) = some act') (hroom : a.openScopes key < 2 ^ 64) :
    b.sighting t key u act' = a.sighting t key u act := by
  by_cases hr : u = t ∧ act.realm? = some key
  · obtain ⟨rfl, hr⟩ := hr
    have hp' := hm.allowed hp h
    obtain rfl := Act.eq_of_remains h hr
    exact hm.sighting_eq hp hp' hr hroom
  · rw [sighting, sighting, Act.realm?_of_remains h, if_neg hr, if_neg hr]

end Mirror

/-- What a thread is shown of a realm in the course of a run. -/
def sightings (t key : Nat) : Arena → List (Nat × Act) → List Sighting
  | _, [] => []
  | a, (u, act) :: rest => (a.sighting t key u act).toList ++ sightings t key (a.step u act).2 rest

/-- What remains of a run if one thread and one realm are looked at alone. -/
def remaining (t key : Nat) : Arena → List (Nat × Act) → List (Nat × Act)
  | _, [] => []
  | a, (u, act) :: rest =>
    ((act.remains t key u (a.frames u)).map (u, ·)).toList ++ remaining t key (a.step u act).2 rest

/-- Before each act of a run fewer scopes of a realm are open than the tally can count. -/
def Countable (key : Nat) : Arena → List (Nat × Act) → Prop
  | _, [] => True
  | a, (u, act) :: rest => a.openScopes key < 2 ^ 64 ∧ Countable key (a.step u act).2 rest

instance decidableCountable (key : Nat) (a : Arena) :
    (acts : List (Nat × Act)) → Decidable (a.Countable key acts)
  | [] => .isTrue trivial
  | (u, act) :: rest =>
    have := decidableCountable key (a.step u act).2 rest
    inferInstanceAs (Decidable (a.openScopes key < 2 ^ 64 ∧ Countable key (a.step u act).2 rest))

theorem sightings_remaining {acts : List (Nat × Act)} (hm : Mirror t key a b) (hl : a.Lawful acts)
    (hc : a.Countable key acts) :
    b.Lawful (remaining t key a acts) ∧
      sightings t key b (remaining t key a acts) = sightings t key a acts := by
  -- The run is that of the full arena; the other one stands still where nothing remains.
  induction acts generalizing a b with
  | nil => exact ⟨trivial, rfl⟩
  | cons p acts ih =>
    obtain ⟨u, act⟩ := p
    have hp := allowed_iff.2 hl.1
    simp only [remaining, sightings]
    cases h : act.remains t key u (a.frames u) with
    | none =>
      have hnone : a.sighting t key u act = none := if_neg (Act.elsewhere_of_none h)
      rw [hnone]
      exact ih (hm.step_none hp h) hl.2 hc.2
    | some act' =>
      obtain ⟨hl', hs⟩ := ih (hm.step_some hp h) hl.2 hc.2
      rw [← hm.sighting_some hp h hc.1, ← hs]
      exact ⟨⟨allowed_iff.1 (hm.allowed hp h), hl'⟩, rfl⟩

/-- What a thread is shown of a realm does not depend on other threads and other realms:
what remains of a run without them is a run too, and shows the same. -/
theorem sightings_isolated (v : Option Log.Verbosity) (t key : Nat) (acts : List (Nat × Act))
    (hl : (Arena.new v).Lawful acts) (hc : (Arena.new v).Countable key acts) :
    (Arena.new v).Lawful (remaining t key (Arena.new v) acts) ∧
      sightings t key (Arena.new v) (remaining t key (Arena.new v) acts) =
        sightings t key (Arena.new v) acts :=
  sightings_remaining (mirror_new v t key) hl hc

/-- Two threads and two realms: an exception passes through a scope of each, and while
one thread is inside of a scope the other one asks for idle stacks and ends. -/
def crossing : List (Nat × Act) :=
  [(1, .register "Base" ⟨0⟩), (1, .declare ⟨1⟩ ⟨"f", [⟨1⟩], true, true, none⟩),
   (1, .enter 0 [⟨1⟩]), (0, .enter 1 [⟨1⟩]), (0, .enter 0 [⟨1⟩, ⟨1⟩]), (1, .requestReclaim 0),
   (1, .leave), (0, .lookup 0 "f"), (0, .raise 2), (0, .activeHere 0), (1, .exit),
   (0, .currentLevel 0)]

theorem sightings_crossing :
    (sightings 0 0 (Arena.new none) crossing).length = 4 ∧
      (remaining 0 0 (Arena.new none) crossing).length = 7 ∧
      sightings 0 0 (Arena.new none) (remaining 0 0 (Arena.new none) crossing) =
        sightings 0 0 (Arena.new none) crossing := by
  obtain ⟨-, h⟩ := sightings_isolated none 0 0 crossing (by decide +kernel) (by decide +kernel)
  exact ⟨by decide +kernel, by decide +kernel, h⟩

end Arena

end ScopedMethods
