import ScopedMethods.Proofs.Scoping

/-!
# Entries that are broken off

The metadata may fail at any query, also at one that they answered a moment ago. A laying is
then cut after any number of its tasks, and the chain that the next one adds to may be there
already. However far it came, the entry leaves nothing behind.
-/

set_option autoImplicit false

namespace ScopedMethods

def Catalog.firstFailure (c : Catalog) (queries : List (Query × TypeId)) (later : Failure) :
    Failure :=
  match c.answered queries () with
  | .error f => f
  | .ok _ => later

namespace Site

/-- Tasks carried out up to one at which the metadata fail. An offer has found or made its
chain before it asks anything. -/
def breakOff (c : Catalog) (t : Caller) (tasks : List Task) (n : Nat) (f : Failure) (w : Site) :
    Outcome Site Unit :=
  match w.carry c t (tasks.take n), tasks[n]? with
  | (.ok (), w), some (.offer m) => (.error f, (w.touch t m.name).2)
  | (.ok (), w), _ => (.error f, w)
  | (.error g, w), _ => (.error g, w)

variable {w : Site} {c : Catalog} {t : Caller} {tasks : List Task}

theorem breakOff_spec (hw : w.Sound) (h0 : 0 < w.stack.level.toNat) (c : Catalog) (t : Caller)
    (tasks : List Task) (n : Nat) (f : Failure) :
    w.Advance (w.breakOff c t tasks n f).2 ∧
      (w.breakOff c t tasks n f).1 =
        .error (c.firstFailure (c.tree.queries w.traced (tasks.take n) w.entries) f) := by
  obtain ⟨ha, hr, -⟩ := carry_spec c t (tasks.take n) hw h0
  rw [breakOff, Catalog.firstFailure, ← hr]
  generalize w.carry c t (tasks.take n) = o at ha ⊢
  obtain ⟨result, w₁⟩ := o
  have h1 : 0 < w₁.stack.level.toNat := by
    rw [ha.level]
    exact h0
  cases result with
  | error g => exact ⟨ha, rfl⟩
  | ok u =>
    rcases tasks[n]? with _ | task
    · exact ⟨ha, rfl⟩
    · cases task with
      | offer m => exact ⟨ha.trans (touch_spec ha.sound h1 t m.name).advance, rfl⟩
      | ask q ty => exact ⟨ha, rfl⟩
      | announce ty k => exact ⟨ha, rfl⟩

theorem breakOff_zero (task : Task) (f : Failure) :
    (w.breakOff c t (task :: tasks) 0 f).1 = .error f := by
  cases task <;> rfl

theorem breakOff_succ {task : Task} (n : Nat) (f : Failure) {w₁ : Site}
    (h : ∀ us, w.carry c t (task :: us) = w₁.carry c t us) :
    w.breakOff c t (task :: tasks) (n + 1) f = w₁.breakOff c t tasks n f := by
  rw [breakOff, breakOff, List.take_succ_cons, h, List.getElem?_cons_succ]

theorem announce_error {w₁ : Site} {ty : TypeId} {k : Nat} {f : Failure}
    (h : w.announce c t ty k = (.error f, w₁)) : w₁ = w := by
  rw [announce] at h
  split at h
  · cases hname : c.typeName ty with
    | error g =>
      rw [hname] at h
      exact (congrArg Prod.snd h).symm
    | ok name =>
      rw [hname] at h
      cases h
  · cases h

theorem offer_error {w₁ : Site} {m : Method} {f : Failure}
    (h : w.offer c t m = (.error f, w₁)) : w₁ = (w.touch t m.name).2 := by
  simp only [offer, Store.add] at h
  cases hp : c.place (Candidate.ofMethod m)
      ((w.touch t m.name).2.store.chain (w.touch t m.name).1).entries with
  | error g =>
    rw [hp] at h
    exact (congrArg Prod.snd h).symm
  | ok es =>
    rw [hp] at h
    cases h

/-- The first of some tasks is carried out and the others follow, or they are broken off at it. -/
theorem carry_first (w : Site) (c : Catalog) (t : Caller) (task : Task) :
    (∃ w₁ : Site, ∀ us, w.carry c t (task :: us) = w₁.carry c t us) ∨
      ∃ f, ∀ us, w.carry c t (task :: us) = w.breakOff c t (task :: us) 0 f := by
  cases task with
  | ask q ty =>
    cases hi : c.info q ty with
    | error f => exact .inr ⟨f, fun us => by simp only [carry, hi]; rfl⟩
    | ok i => exact .inl ⟨w, fun us => by simp only [carry, hi]⟩
  | announce ty k =>
    rcases ha : w.announce c t ty k with ⟨f | u, w₁⟩
    · obtain rfl := announce_error ha
      exact .inr ⟨f, fun us => by simp only [carry, ha]; rfl⟩
    · exact .inl ⟨w₁, fun us => by simp only [carry, ha]⟩
  | offer m =>
    rcases ho : w.offer c t m with ⟨f | u, w₁⟩
    · obtain rfl := offer_error ho
      exact .inr ⟨f, fun us => by simp only [carry, ho]; rfl⟩
    · exact .inl ⟨w₁, fun us => by simp only [carry, ho]⟩

theorem broken_of_carry_error {f : Failure} (h : (w.carry c t tasks).1 = .error f) :
    ∃ n < tasks.length, w.carry c t tasks = w.breakOff c t tasks n f := by
  induction tasks generalizing w with
  | nil => cases h
  | cons task tasks ih =>
    rcases carry_first w c t task with ⟨w₁, hw₁⟩ | ⟨g, hg⟩
    · rw [hw₁] at h
      obtain ⟨n, hn, heq⟩ := ih h
      refine ⟨n + 1, Nat.succ_lt_succ hn, ?_⟩
      rw [hw₁, heq, breakOff_succ n f hw₁]
    · rw [hg, breakOff_zero] at h
      obtain rfl := Except.error.inj h
      exact ⟨0, Nat.succ_pos _, hg tasks⟩

end Site

/-- How an entry ends that is broken off: at the depth limit, at a query that fails before it
comes so far, or there. -/
def Outlook.broken (o : Outlook) (c : Catalog) (limit : Level) (traced : Bool)
    (types : List TypeId) (n : Nat) (f : Failure) : Failure :=
  if limit ≠ 0 ∧ limit.toNat ≤ o.level.toNat then .code .nestingTooDeep
  else c.firstFailure (c.tree.queries traced ((c.tree.plan types).take n) o.entries) f

namespace Realm

def layUpTo (c : Catalog) (t : Caller) (types : List TypeId) (n : Nat) (f : Failure)
    (realm : Nat) (w : Site) : Outcome Site Unit :=
  (w.note t (.typesLaid realm types.length w.stack.level)).breakOff c t (c.tree.plan types) n f

def breakOff (c : Catalog) (t : Caller) (types : List TypeId) (n : Nat) (f : Failure)
    (r : Realm) (s : Store) : Except Failure Nat × Realm × Store :=
  r.enterBy t (layUpTo c t types n f) s

theorem layUpTo_spec (c : Catalog) (t : Caller) (types : List TypeId) (n : Nat) (f : Failure)
    (realm : Nat) {w w₁ : Site} (hw : w.Sound) (he : Site.Entered w w₁) :
    Site.Turn w (layUpTo c t types n f realm w₁).2 ∧
      (layUpTo c t types n f realm w₁).2.outlook.leave = w.outlook ∧
      0 < (layUpTo c t types n f realm w₁).2.stack.level.toNat ∧
      (layUpTo c t types n f realm w₁).1 = .error (c.firstFailure
        (c.tree.queries w.store.traced ((c.tree.plan types).take n) w.outlook.entries) f) := by
  have hn : (w₁.note t (.typesLaid realm types.length w₁.stack.level)).Sound :=
    Site.sound_note he.sound t _
  have h0 : 0 < w₁.stack.level.toNat := by
    rw [he.level]
    exact Nat.succ_pos _
  obtain ⟨ha, hres⟩ := Site.breakOff_spec hn h0 c t (c.tree.plan types) n f
  have ht : (w₁.note t (.typesLaid realm types.length w₁.stack.level)).traced = w.store.traced :=
    Site.admits_congr ((Journal.verbosity_note _ t _).trans he.verbosity) _ _
  have hes : (w₁.note t (.typesLaid realm types.length w₁.stack.level)).entries =
      w.outlook.entries := by
    funext name
    show (w₁.lineage name).entries = (w.lineage name).entries
    rw [he.lineage]
  rw [ht, hes] at hres
  have ha' := ((Site.Advance.refl he.sound).note t _).trans ha
  refine ⟨(Site.Turn.of_entered he).trans (.of_advance ha' he.owns),
    Site.leave_outlook hw he ha', ?_, hres⟩
  rw [layUpTo, ha.level]
  exact h0

variable {r : Realm} {s : Store} {t : Caller}

/-- An entry that is broken off is not seen, however far the laying came. -/
theorem breakOff_spec (hr : r.Sound s) (c : Catalog) (t : Caller) (types : List TypeId) (n : Nat)
    (f : Failure)
    (hl : r.options.maxDepth = 0 → (r.outlook s t.thread).level.toNat + 1 < 2 ^ 32) :
    (r.breakOff c t types n f s).1 =
        .error ((r.outlook s t.thread).broken c r.options.maxDepth s.traced types n f) ∧
      Quiet t.thread r s (r.breakOff c t types n f s).2.1 (r.breakOff c t types n f s).2.2 := by
  obtain ⟨r₁, s₁, id, hq, hid, heq⟩ := enterBy_on hr t
  rw [breakOff, heq, ← hq.same, ← hq.move.options, ← hq.move.store.traced]
  rw [← hq.same, ← hq.move.options] at hl
  have hr₁ := hq.move.sound
  obtain ⟨st, hst⟩ := hr₁.stack_of_held hid
  have hold : r₁.outlook s₁ t.thread = (⟨s₁, r₁.ledger, st⟩ : Site).outlook := outlook_some hid hst
  have hfull : (⟨s₁, r₁.ledger, st⟩ : Site).full = true ↔ r₁.options.maxDepth ≠ 0 ∧
      r₁.options.maxDepth.toNat ≤ (r₁.outlook s₁ t.thread).level.toNat := by
    rw [hold, ← hr₁.limit hst]
    exact Site.full_iff
  by_cases h : (⟨s₁, r₁.ledger, st⟩ : Site).full = true
  · obtain ⟨he, hq'⟩ := enterOnBy_full hr₁ hid hst (layUpTo c t types n f) h
    rw [he, Outlook.broken, if_pos (hfull.1 h)]
    exact ⟨rfl, hq.trans hq'⟩
  · rw [← hr₁.limit hst, hold] at hl
    obtain ⟨w, he, heq'⟩ := enterOnBy_eq hr₁ hst t h hl
    obtain ⟨hturn, hleave, hlevel, hres⟩ :=
      layUpTo_spec c t types n f r₁.id (hr₁.sites hst) he
    rw [← hold] at hleave hres
    rw [heq', hres, Outlook.broken, if_neg fun h' => h (hfull.2 h')]
    obtain ⟨h1, h2⟩ := concluded_error hr₁ hid hst hturn hleave hlevel _
    exact ⟨h1, hq.trans h2⟩

/-- An entry that is refused is broken off at some task of its plan, or at the limit. -/
theorem broken_of_refused (hr : r.Sound s) (c : Catalog) (t : Caller) (types : List TypeId)
    (hl : r.options.maxDepth = 0 → (r.outlook s t.thread).level.toNat + 1 < 2 ^ 32) {f : Failure}
    (h : (r.enter c t types s).1 = .error f) :
    ∃ n, r.enter c t types s = r.breakOff c t types n f s := by
  obtain ⟨r₁, s₁, id, hq, hid, heq⟩ := enterBy_on hr t
  rw [enter_eq_enterBy, heq] at h ⊢
  simp only [breakOff, heq]
  have hr₁ := hq.move.sound
  obtain ⟨st, hst⟩ := hr₁.stack_of_held hid
  rw [← hq.same, ← hq.move.options, ← hr₁.limit hst, outlook_some hid hst] at hl
  by_cases hfull : (⟨s₁, r₁.ledger, st⟩ : Site).full = true
  · exact ⟨0, by rw [enterOnBy_at_limit hst t _ hfull, enterOnBy_at_limit hst t _ hfull]⟩
  · obtain ⟨w, -, heq'⟩ := enterOnBy_eq hr₁ hst t hfull hl
    have hlaid : (layTypes c t types r₁.id w).1 = .error f := by
      rw [heq'] at h
      rcases hres : (layTypes c t types r₁.id w).1 with g | u
      · rw [hres] at h
        exact congrArg _ (Except.error.inj h)
      · rw [hres] at h
        cases h
    rw [layTypes, Site.layAll_eq_carry] at hlaid
    obtain ⟨n, -, hn⟩ := Site.broken_of_carry_error hlaid
    have hsame : layTypes c t types r₁.id w = layUpTo c t types n f r₁.id w := by
      rw [layTypes, Site.layAll_eq_carry, hn, layUpTo]
    exact ⟨n, by rw [heq', heq', hsame]⟩

end Realm

end ScopedMethods
