import ScopedMethods.Proofs.Conservation
import ScopedMethods.Proofs.Pinning
import ScopedMethods.Proofs.Sightings

/-!
# Looked-up chains

A stack extends its own chains in place, but only those of its present level, and
these are made by the scope that is being laid. So no entry touches a chain that
could be looked up before it, and what was once looked up stays as it is: through
scopes laid over it and half laid, and when the scope, the stack, the thread and
the realm it is from are gone.
-/

set_option autoImplicit false

namespace ScopedMethods

namespace Realm

variable {r : Realm} {s : Store} {t : Caller} {id : Nat}

theorem Sound.labels_of_outlook (hr : r.Sound s) {u : Nat} {name : String} {p : ChainId × Chain}
    (hp : p ∈ (r.outlook s u).lineage name) :
    p.2.name = name ∧ some p.2.counter = r.ledger.counters.get? name := by
  cases hid : r.custody.held? u with
  | none =>
    rw [outlook_none hid] at hp
    cases hp
  | some id =>
    obtain ⟨st, hst⟩ := hr.stack_of_held hid
    rw [outlook_some hid hst] at hp
    exact Lineage.linked_name ((hr.sites hst).linked name) hp

theorem keeps_openOn (hr : r.Sound s) (hid : r.custody.held? t.thread = some id) (c : Catalog)
    (types : List TypeId)
    (hl : r.options.maxDepth = 0 → (r.outlook s t.thread).level.toNat + 1 < 2 ^ 32) :
    s.Keeps (r.openOn c t types id s).2.2 := by
  obtain ⟨st, hst⟩ := hr.stack_of_held hid
  rw [outlook_some hid hst, ← hr.limit hst] at hl
  rcases openOn_cases hr hst c t types hl with ⟨f, s', hs, heq⟩ | ⟨w, he, heq⟩
  · rw [heq]
    exact hs.keeps
  · rw [heq]
    exact (Site.laying_spec c t types r.id (hr.sites hst) he).1.store

/-- An entry changes no chain that was there, however it ends and up to where it fails. -/
theorem keeps_opening (hr : r.Sound s) (c : Catalog) (t : Caller) (types : List TypeId)
    (hl : r.options.maxDepth = 0 → (r.outlook s t.thread).level.toNat + 1 < 2 ^ 32) :
    s.Keeps (r.opening c t types s).2.2 := by
  obtain ⟨hq, id, hid, heq⟩ := opening_eq hr c t types
  rw [heq]
  exact hq.move.store.trans
    (keeps_openOn hq.move.sound hid c types (by rw [hq.same, hq.move.options]; exact hl))

end Realm

namespace Arena

variable {a : Arena} {t u key : Nat}

theorem Sound.labels_of_outlook {F : Nat → List Frame} (ha : a.Sound F) {name : String}
    {p : ChainId × Chain} (hp : p ∈ (a.outlook t key).lineage name) :
    p.2.name = name ∧ some p.2.counter = a.counter? key name := by
  cases hr : a.realm? key with
  | none =>
    rw [outlook_none hr] at hp
    cases hp
  | some r =>
    rw [outlook_some hr] at hp
    rw [counter?_some hr]
    exact (ha.realms hr).labels_of_outlook hp

theorem keeps_happen (ha : a.Sound a.frames) {h : Happening} (hp : a.Admits h) :
    a.store.Keeps (a.happen h).store := by
  cases h with
  | act t act => exact (step_spec ha hp).shift.store
  | cut t => exact (cutOff_spec ha t).2.1.store

theorem keeps_through {hs : List Happening} (ha : a.Sound a.frames) (hl : a.Orderly hs) :
    a.store.Keeps (a.through hs).store := by
  induction hs generalizing a with
  | nil => exact .refl _
  | cons h hs ih => exact (keeps_happen ha hl.1).trans (ih (sound_happen ha hl.1) hl.2)

theorem keeps_opening (ha : a.Sound a.frames) {types : List TypeId}
    (hp : a.Permits t (.enter key types)) :
    let p := a.obtainRealm t key
    a.store.Keeps (p.1.opening a.catalog (a.caller t) types p.2.store).2.2 := by
  intro p
  obtain ⟨h1, h2, -, hr⟩ := obtainRealm_spec ha t key
  exact h2.shift.store.trans (Realm.keeps_opening (h1.realms hr) a.catalog (a.caller t) types
    (obtained_room ha t key hp))

theorem lineage_kept {s s' : Store} (hk : s.Keeps s') {id : ChainId}
    (hb : ∀ p ∈ s.lineage id, p.1.number < s.chains.size) : s'.lineage id = s.lineage id :=
  Store.lineage_congr fun p hp => (hk.frame (hb p hp)).trans (Store.chain_of_mem_lineage hp)

theorem shown_of_lookup (ha : a.Sound a.frames) {name : String} {id : ChainId}
    (h : (a.step t (.lookup key name)).1 = .chain (some id)) :
    0 < depthIn key (a.frames t) ∧
      ∀ p ∈ a.store.lineage id, p.2.name = name ∧ p.1.number < a.store.chains.size := by
  rw [lookup_answer ha] at h
  have hhead : ((a.outlook t key).lineage name).ids.head? = some id := Ending.chain.inj h
  have hlin := lineage_of_head ha hhead
  constructor
  · rw [← ha.depth]
    apply Nat.pos_of_ne_zero
    intro h0
    rw [ha.idle (UInt32.toNat_inj.1 h0)] at hhead
    cases hhead
  · intro p hp
    rw [← hlin] at hp
    exact ⟨(ha.labels_of_outlook hp).1, (chain_of_outlook ha hp).2⟩

/-- A chain that a thread was shown keeps its name, level and entries, and so do all that it
shadows: after every continuation of the run, and while a scope is laid there that may fail. -/
theorem lookups_unchanging (v : Option Log.Verbosity) (before after : List Happening)
    (t key : Nat) (name : String)
    (hl : (Arena.new v).Orderly (before ++ .act t (.lookup key name) :: after)) :
    let a := (Arena.new v).through before
    let b := (a.step t (.lookup key name)).2
    let c := b.through after
    ∀ id, (a.step t (.lookup key name)).1 = .chain (some id) →
      0 < depthIn key (a.frames t) ∧
      (∀ p ∈ b.store.lineage id, p.2.name = name) ∧
      c.store.lineage id = b.store.lineage id ∧
      ∀ u k types, c.Permits u (.enter k types) →
        let p := c.obtainRealm u k
        (p.1.opening c.catalog (c.caller u) types p.2.store).2.2.lineage id =
          b.store.lineage id := by
  intro a b c id h
  obtain ⟨hbefore, hlookup, hafter⟩ := orderly_append.1 hl
  have ha : a.Sound a.frames := sound_through (sound_new v) hbefore
  have hb : b.Sound b.frames := sound_happen ha hlookup
  have hc : c.Sound c.frames := sound_through hb hafter
  obtain ⟨hinside, hshown⟩ := shown_of_lookup ha h
  have hab := lineage_kept (keeps_happen ha hlookup) fun p hp => (hshown p hp).2
  have hkeeps : b.store.Keeps c.store := keeps_through hb hafter
  have hthere : ∀ p ∈ b.store.lineage id, p.1.number < b.store.chains.size := by
    intro p hp
    rw [show b.store.lineage id = _ from hab] at hp
    exact (hshown p hp).2.trans_le (keeps_happen ha hlookup).size
  refine ⟨hinside, fun p hp => ?_, lineage_kept hkeeps hthere, fun u k types hp => ?_⟩
  · rw [show b.store.lineage id = _ from hab] at hp
    exact (hshown p hp).1
  · exact lineage_kept (hkeeps.trans (keeps_opening hc hp)) hthere

def shown : List Happening :=
  [.act 0 (.register "Base" ⟨0⟩), .act 0 (.register "Derived" ⟨1⟩),
   .act 0 (.declare ⟨1⟩ ⟨"f", [⟨1⟩], true, true, none⟩),
   .act 0 (.declare ⟨2⟩ ⟨"f", [⟨2⟩], true, true, none⟩), .act 0 (.enter 0 [⟨1⟩])]

def outlived : List Happening :=
  [.act 0 (.enter 0 [⟨2⟩]), .act 0 (.setFault .methods ⟨2⟩ true), .act 0 (.enter 0 [⟨1⟩, ⟨2⟩]),
   .act 0 (.setFault .methods ⟨2⟩ false), .act 0 .leave, .act 0 .leave,
   .act 1 (.requestReclaim 0), .act 0 (.enter 0 [⟨2⟩]), .act 1 (.enter 0 [⟨1⟩]), .cut 0,
   .act 1 .leave, .act 1 (.destroyRealm 0)]

theorem lookups_outlived :
    let a := (Arena.new none).through shown
    let b := (a.step 0 (.lookup 0 "f")).2
    let c := b.through outlived
    (a.step 0 (.lookup 0 "f")).1 = .chain (some ⟨0⟩) ∧
      b.store.chains.size = 1 ∧ c.store.chains.size = 5 ∧ (c.realm? 0).isNone ∧
      c.store.lineage ⟨0⟩ = b.store.lineage ⟨0⟩ := by
  intro a b c
  have h : (a.step 0 (.lookup 0 "f")).1 = .chain (some ⟨0⟩) := by
    have ha : a.Sound a.frames := sound_through (sound_new none) (by decide +kernel)
    have hhead : ((a.outlook 0 0).lineage "f").ids.head? = some ⟨0⟩ := by decide +kernel
    rw [lookup_answer ha, hhead]
  obtain ⟨-, -, hsame, -⟩ :=
    lookups_unchanging none shown outlived 0 0 "f" (by decide +kernel) ⟨0⟩ h
  exact ⟨h, by decide +kernel, by decide +kernel, by decide +kernel, hsame⟩

end Arena

end ScopedMethods
