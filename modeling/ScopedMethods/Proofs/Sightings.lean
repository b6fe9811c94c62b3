import ScopedMethods.Proofs.Answers

/-!
# What a thread is shown

An entry into a realm and the questions put to it show a thread how the entry
ended, its level, whether it is in a scope, and levels and candidates along a
chain. Outlooks that differ in the identity of chains only show the same.
-/

set_option autoImplicit false

namespace ScopedMethods

inductive Sighting where
  | entered
  | refused (f : Failure)
  | chain (l : Option Ladder)
  | level (n : Level)
  | flag (b : Bool)

def Store.ladder (s : Store) (id : ChainId) : Ladder :=
  (id :: (s.chain id).shadows).map fun p => ((s.chain p).level, (s.chain p).entries)

/-- What the end of an act shows. -/
def Ending.sighting (s : Store) : Ending → Option Sighting
  | .entered => some .entered
  | .refused f => some (.refused f)
  | .chain id => some (.chain (id.map s.ladder))
  | .level n => some (.level n)
  | .flag b => some (.flag b)
  | _ => none

def Act.realm? : Act → Option Nat
  | .createRealm key _ | .destroyRealm key | .enter key _ | .lookup key _ | .activeHere key
  | .currentLevel key | .nameUsage key _ | .requestReclaim key => some key
  | _ => none

namespace Ladder

def popped (level : Level) : Ladder → Ladder
  | [] => []
  | r :: below => if r.1 = level then below else r :: below

def seen : Ladder → Option Ladder
  | [] => none
  | r :: below => some (r :: below)

end Ladder

theorem Lineage.ladder_popped (level : Level) (l : Lineage) :
    (l.popped level).ladder = l.ladder.popped level := by
  cases l with
  | nil => rfl
  | cons p below =>
    simp only [Lineage.popped, Lineage.ladder, Ladder.popped, List.map_cons]
    split <;> rfl

namespace Outlook

/-- Outlooks that differ in the identity of chains only. -/
structure Alike (o o' : Outlook) : Prop where
  level : o'.level = o.level
  ladder : ∀ name, (o'.lineage name).ladder = (o.lineage name).ladder

variable {o o' p p' : Outlook}

namespace Alike

theorem refl (o : Outlook) : Alike o o := ⟨rfl, fun _ => rfl⟩

theorem leave (h : Alike o o') : Alike o.leave o'.leave := by
  constructor
  · show o'.level - 1 = o.level - 1
    rw [h.level]
  · intro name
    show ((o'.lineage name).popped o'.level).ladder = ((o.lineage name).popped o.level).ladder
    rw [Lineage.ladder_popped, Lineage.ladder_popped, h.level, h.ladder]

theorem leaves (h : Alike o o') (n : Nat) :
    Alike (Outlook.leave^[n] o) (Outlook.leave^[n] o') := by
  induction n generalizing o o' with
  | zero => exact h
  | succ n ih => exact ih h.leave

theorem overlay (h : Alike o o') {tree : TypeTree} {types : List TypeId} (hp : o.Over tree types p)
    (hp' : o'.Over tree types p') : Alike p p' := by
  have hlevel : p'.level = p.level := by
    apply UInt32.toNat_inj.1
    rw [hp'.level, hp.level, h.level]
  constructor
  · exact hlevel
  · intro name
    rw [hp'.ladder, hp.ladder, h.ladder, hlevel]

theorem entries (h : Alike o o') : o'.entries = o.entries := by
  ext1 name
  show (o'.lineage name).entries = (o.lineage name).entries
  rw [← Lineage.entries_ladder, h.ladder, Lineage.entries_ladder]

theorem verdict (h : Alike o o') (c : Catalog) (limit : Level) (traced : Bool)
    (types : List TypeId) : o'.verdict c limit traced types = o.verdict c limit traced types := by
  simp only [Outlook.verdict, h.level, h.entries]

end Alike

end Outlook

namespace Arena

variable {a : Arena} {t key : Nat}

def sighting (t key : Nat) (a : Arena) (u : Nat) (act : Act) : Option Sighting :=
  if u = t ∧ act.realm? = some key then (a.step u act).1.sighting (a.step u act).2.store else none

theorem sighting_own {act : Act} (hr : act.realm? = some key) :
    a.sighting t key t act = (a.step t act).1.sighting (a.step t act).2.store :=
  if_pos ⟨rfl, hr⟩

theorem lineage_of_head {F : Nat → List Frame} (ha : a.Sound F) {name : String} {id : ChainId}
    (h : ((a.outlook t key).lineage name).ids.head? = some id) :
    (a.outlook t key).lineage name = a.store.lineage id := by
  cases hr : a.realm? key with
  | none =>
    rw [outlook_none hr] at h
    cases h
  | some r =>
    rw [outlook_some hr] at h ⊢
    cases hheld : r.custody.held? t with
    | none =>
      rw [Realm.outlook_none hheld] at h
      cases h
    | some i =>
      obtain ⟨st, hst⟩ := (ha.realms hr).stack_of_held hheld
      rw [Realm.outlook_some hheld hst] at h ⊢
      exact ScopeStack.lineage_of_some ((ScopeStack.chain?_eq_head st a.store name).trans h) _

theorem ladder_of_outlook {F : Nat → List Frame} (ha : a.Sound F) (t key : Nat) (name : String) :
    ((a.outlook t key).lineage name).ids.head?.map a.store.ladder =
      ((a.outlook t key).lineage name).ladder.seen := by
  cases h : ((a.outlook t key).lineage name).ids.head? with
  | none =>
    rw [List.map_eq_nil_iff.1 (List.head?_eq_none_iff.1 h)]
    rfl
  | some id =>
    rw [lineage_of_head ha h, Store.lineage_eq_cons]
    simp [Lineage.ladder, Ladder.seen, Store.ladder]

theorem sighting_lookup (ha : a.Sound a.frames) (t key : Nat) (name : String) :
    a.sighting t key t (.lookup key name) =
      some (.chain ((a.outlook t key).lineage name).ladder.seen) := by
  have hp : a.Permits t (.lookup key name) := trivial
  have hs := step_spec ha hp
  have ho : (a.step t (.lookup key name)).2.outlook t key = a.outlook t key := by
    rcases hs.change with ⟨_, _, _, h, _, _, _, _⟩ | ⟨_, _, h⟩
    · cases h
    · exact h key
  have h := ladder_of_outlook hs.sound t key name
  rw [ho] at h
  rw [sighting_own rfl, lookup_answer ha, Ending.sighting, h]

/-- An entry ends alike where the types, the limit, the log and the outlook are alike. -/
theorem enter_answer_congr {b : Arena} (ha : a.Sound a.frames) (hb : b.Sound b.frames)
    {types : List TypeId} (hp : a.Allowed t (.enter key types))
    (hp' : b.Allowed t (.enter key types)) (hc : b.catalog = a.catalog)
    (hl : (b.options key).maxDepth = (a.options key).maxDepth)
    (ht : b.store.traced = a.store.traced) (ho : (a.outlook t key).Alike (b.outlook t key)) :
    (b.step t (.enter key types)).1 = (a.step t (.enter key types)).1 := by
  have hv : b.verdict t key types = a.verdict t key types := by
    rw [verdict, verdict, hc, hl, ht, ho.verdict]
  rw [enter_answer ha types (hp.entered key types rfl),
    enter_answer hb types (hp'.entered key types rfl), hv]

end Arena

end ScopedMethods
