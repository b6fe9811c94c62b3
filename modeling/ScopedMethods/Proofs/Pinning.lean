import ScopedMethods.Proofs.Answers

/-!
# Pinned stacks

A thread that is inside of scopes of a realm entered all of them on one stack,
which is live and its own, at the level that counts them. This holds between any
two acts, between any two scopes that one act leaves, and while a scope that may
still fail is laid; so no scope is ever left on a stack that is gone.
-/

set_option autoImplicit false

namespace ScopedMethods

namespace Realm

/-- A thread holds a stack, which is registered for it and live, with so many scopes open. -/
structure Pinned (r : Realm) (t id depth : Nat) : Prop where
  held : r.custody.held? t = some id
  registered : ∃ g ∈ r.custody.register, g.owner = t ∧ g.state = id
  live : ∃ st, r.stack? id = some st ∧ st.level.toNat = depth

variable {r : Realm} {s : Store} {t : Caller} {u id : Nat} {st : ScopeStack} {c : Catalog}
  {types : List TypeId}

theorem Sound.pinned (hr : r.Sound s) (hid : r.custody.held? u = some id) :
    r.Pinned u id (r.outlook s u).level.toNat := by
  obtain ⟨st, hst⟩ := hr.stack_of_held hid
  refine ⟨hid, hr.custody.held.1 hid, st, hst, ?_⟩
  rw [outlook_some hid hst]
  rfl

def openOn (c : Catalog) (t : Caller) (types : List TypeId) (id : Nat) (r : Realm) (s : Store) :
    Except Failure (Nat × Except Failure Unit) × Realm × Store :=
  match r.atStack id (fun w => let (e, w) := w.enter t; (e.orRaise, w)) s with
  | (.error f, r, s) => (.error f, r, s)
  | (.ok (), r, s) =>
    let (result, r, s) := r.atStack id (layTypes c t types r.id) s
    (.ok (id, result), r, s)

def opening (c : Catalog) (t : Caller) (types : List TypeId) (r : Realm) (s : Store) :
    Except Failure (Nat × Except Failure Unit) × Realm × Store :=
  let (stack, custody, g) := r.custody.obtain r.keeper t (r.grounds s)
  let r := r.settle custody g
  match stack with
  | .error f => (.error f, r, g.store)
  | .ok id => openOn c t types id r g.store

def ended (t : Caller) :
    Except Failure (Nat × Except Failure Unit) × Realm × Store → Except Failure Nat × Realm × Store
  | (.error f, r, s) => (.error f, r, s)
  | (.ok (id, .error f), r, s) => (.error f, r.leave t id s)
  | (.ok (id, .ok ()), r, s) => (.ok id, r, s)

theorem enter_eq (c : Catalog) (t : Caller) (types : List TypeId) (r : Realm) (s : Store) :
    r.enter c t types s = ended t (r.opening c t types s) := by
  rw [enter, opening]
  generalize r.custody.obtain r.keeper t (r.grounds s) = p
  obtain ⟨stack, custody, g⟩ := p
  cases stack with
  | error f => rfl
  | ok id =>
    simp only [openOn]
    generalize (r.settle custody g).atStack id _ g.store = q
    obtain ⟨entered, r₁, s₁⟩ := q
    cases entered with
    | error f => rfl
    | ok u =>
      simp only
      generalize r₁.atStack id (layTypes c t types r₁.id) s₁ = o
      obtain ⟨result, r₂, s₂⟩ := o
      cases result <;> rfl

theorem openOn_cases (hr : r.Sound s) (hst : r.stack? id = some st) (c : Catalog) (t : Caller)
    (types : List TypeId) (hl : st.maxDepth = 0 → st.level.toNat + 1 < 2 ^ 32) :
    (∃ f s', s.Same s' ∧
      r.openOn c t types id s = (.error f, r.withSite id ⟨s', r.ledger, st⟩, s')) ∨
    ∃ w, Site.Entered ⟨s, r.ledger, st⟩ w ∧
      r.openOn c t types id s =
        let o := layTypes c t types r.id w
        (.ok (id, o.1), r.withSite id o.2, o.2.store) := by
  by_cases hfull : (⟨s, r.ledger, st⟩ : Site).full = true
  · refine .inl ⟨.code .nestingTooDeep, _,
      (Store.Same.refl s).refuse t st.id (.atMaximum st.level), ?_⟩
    rw [openOn, atStack_eq hst, Site.enter_full t hfull]
    rfl
  · obtain ⟨w, he, hopened, hwork⟩ := atStack_enter t hr hst hfull hl
    refine .inr ⟨w, he, ?_⟩
    rw [openOn, hopened]
    simp only
    rw [hwork]
    rfl

theorem openOn_spec (hr : r.Sound s) (hid : r.custody.held? t.thread = some id) (c : Catalog)
    (types : List TypeId)
    (hl : r.options.maxDepth = 0 → (r.outlook s t.thread).level.toNat + 1 < 2 ^ 32)
    {i : Nat} {x : Except Failure Unit} (h : (r.openOn c t types id s).1 = .ok (i, x)) :
    i = id ∧ Move t.thread r s (r.openOn c t types id s).2.1 (r.openOn c t types id s).2.2 ∧
      (r.openOn c t types id s).2.1.Pinned t.thread id
        ((r.outlook s t.thread).level.toNat + 1) := by
  obtain ⟨st, hst⟩ := hr.stack_of_held hid
  have hw := hr.sites hst
  have hold : r.outlook s t.thread = (⟨s, r.ledger, st⟩ : Site).outlook := outlook_some hid hst
  rw [hold, ← hr.limit hst] at hl
  rcases openOn_cases hr hst c t types hl with ⟨f, s', -, heq⟩ | ⟨w, he, heq⟩
  · rw [heq] at h
    cases h
  obtain ⟨hturn, -, hlevel, -⟩ := Site.laying_spec c t types r.id hw he
  rw [heq] at h ⊢
  generalize layTypes c t types r.id w = o at h hturn hlevel ⊢
  obtain ⟨hm, hout⟩ := move_turn hr hid hst hturn
  have hpinned := hm.sound.pinned (u := t.thread) hid
  rw [hout] at hpinned
  rw [hold]
  refine ⟨(congrArg Prod.fst (Except.ok.inj h)).symm, hm, ?_⟩
  rwa [show o.2.outlook.level.toNat = _ from hlevel] at hpinned

theorem opening_eq (hr : r.Sound s) (c : Catalog) (t : Caller) (types : List TypeId) :
    let o := r.custody.obtain r.keeper t (r.grounds s)
    let r₁ := r.settle o.2.1 o.2.2
    Quiet t.thread r s r₁ o.2.2.store ∧ ∃ id, r₁.custody.held? t.thread = some id ∧
      r.opening c t types s = r₁.openOn c t types id o.2.2.store := by
  intro o r₁
  obtain ⟨hq, id, hres, hid⟩ := quiet_obtain (r := r) (c := r.custody) (g := r.grounds s) hr t
  rw [settle_self] at hq
  refine ⟨hq, id, hid, ?_⟩
  simp only [opening]
  rw [hres]

/-- While a scope is laid, the thread's stack is pinned, and it is the one that the
thread had if that was pinned before. -/
theorem opening_spec (hr : r.Sound s) (c : Catalog) (t : Caller) (types : List TypeId)
    (hl : r.options.maxDepth = 0 → (r.outlook s t.thread).level.toNat + 1 < 2 ^ 32)
    {i : Nat} {x : Except Failure Unit} (h : (r.opening c t types s).1 = .ok (i, x)) :
    Move t.thread r s (r.opening c t types s).2.1 (r.opening c t types s).2.2 ∧
      (r.opening c t types s).2.1.Pinned t.thread i ((r.outlook s t.thread).level.toNat + 1) ∧
      ((r.outlook s t.thread).level ≠ 0 → r.custody.held? t.thread = some i) := by
  obtain ⟨hq, id, hid, heq⟩ := opening_eq hr c t types
  rw [heq] at h ⊢
  obtain ⟨rfl, hm, hpinned⟩ :=
    openOn_spec hq.move.sound hid c types (by rw [hq.same, hq.move.options]; exact hl) h
  rw [hq.same] at hpinned
  exact ⟨hq.move.trans hm, hpinned, fun h0 => (hq.pinned h0).symm.trans hid⟩

theorem Move.pinned_other {r' : Realm} {s' : Store} {v d : Nat} (hm : Move u r s r' s')
    (hr : r.Sound s) (hv : v ≠ u) (h : r.Pinned v id d) : r'.Pinned v id d := by
  have h1 := hm.sound.pinned ((hm.held hv).trans h.held)
  have h2 := hr.pinned h.held
  obtain ⟨st, hst, hd⟩ := h.live
  obtain ⟨st', hst', hd'⟩ := h2.live
  rw [hst] at hst'
  cases hst'
  rw [hm.others hv, ← hd', hd] at h1
  exact h1

end Realm

namespace Arena

variable {a : Arena} {F : Nat → List Frame} {t u : Nat} {f g : Frame}

theorem Sound.stack_pinned (ha : a.Sound F) (hf : f ∈ F t) :
    ∃ r, a.realm? f.realm = some r ∧ r.Pinned t f.stack (depthIn f.realm (F t)) := by
  obtain ⟨r, hr, hid⟩ := ha.framed hf
  have h := (ha.realms hr).pinned hid
  rw [← outlook_some hr, ha.depth] at h
  exact ⟨r, hr, h⟩

theorem Sound.one_stack (ha : a.Sound F) (hf : f ∈ F t) (hg : g ∈ F t)
    (h : g.realm = f.realm) : g.stack = f.stack := by
  obtain ⟨r, hr, hid⟩ := ha.framed hf
  obtain ⟨q, hq, hid'⟩ := ha.framed hg
  rw [h, hr] at hq
  cases hq
  rw [hid] at hid'
  exact (Option.some.inj hid').symm

theorem Step.stays {a' : Arena} {act : Act} {e : Ending} (hs : Step t act a e a') {key : Nat}
    (hbefore : 0 < depthIn key (a.frames u)) (hafter : 0 < depthIn key (a'.frames u)) :
    ∃ f ∈ a.frames u, f ∈ a'.frames u ∧ f.realm = key := by
  have hmem : ∀ {fs : List Frame}, 0 < depthIn key fs → ∃ f ∈ fs, f.realm = key := by
    intro fs h
    obtain ⟨f, hf, hk⟩ := List.countP_pos_iff.1 h
    exact ⟨f, hf, of_decide_eq_true hk⟩
  by_cases hu : u = t
  · subst hu
    rcases hs.change with ⟨key', types, id, -, -, hf, -, -⟩ | ⟨-, hf, -⟩
    · obtain ⟨f, hf', hk⟩ := hmem hbefore
      refine ⟨f, hf', ?_, hk⟩
      rw [hf]
      exact List.mem_cons_of_mem _ hf'
    · obtain ⟨f, hf', hk⟩ := hmem hafter
      refine ⟨f, ?_, hf', hk⟩
      rw [hf] at hf'
      exact List.mem_of_mem_drop hf'
  · rw [hs.others u hu] at hafter ⊢
    obtain ⟨f, hf, hk⟩ := hmem hafter
    exact ⟨f, hf, hf, hk⟩

/-- While a thread lays a scope, its stack and those of all others inside are pinned. -/
theorem opening_pinned (ha : a.Sound a.frames) {key : Nat} {types : List TypeId}
    (hp : a.Permits t (.enter key types)) {id : Nat} {x : Except Failure Unit} :
    let p := a.obtainRealm t key
    let o := p.1.opening a.catalog (a.caller t) types p.2.store
    o.1 = .ok (id, x) →
      o.2.1.Pinned t id (depthIn key (a.frames t) + 1) ∧
      (∀ f ∈ a.frames t, f.realm = key → f.stack = id) ∧
      ∀ u, u ≠ t → ∀ f ∈ a.frames u, f.realm = key →
        o.2.1.Pinned u f.stack (depthIn key (a.frames u)) := by
  intro p o ho
  obtain ⟨h1, -, -, hr⟩ := obtainRealm_spec ha t key
  have hdepth := h1.depth t key
  rw [outlook_some hr] at hdepth
  obtain ⟨hm, hpinned, hkept⟩ := Realm.opening_spec (h1.realms hr) a.catalog (a.caller t) types
    (obtained_room ha t key hp) ho
  rw [show (a.caller t).thread = t from rfl, hdepth] at hpinned
  refine ⟨hpinned, fun f hf hk => ?_, fun u hu f hf hk => ?_⟩
  · obtain ⟨q, hq, hid⟩ := h1.framed hf
    rw [hk, hr] at hq
    cases hq
    have h0 : (p.1.outlook p.2.store t).level ≠ 0 := by
      intro h0
      rw [h0, ← hk] at hdepth
      exact absurd hdepth (Nat.ne_of_lt (depthIn_pos hf))
    exact Option.some.inj (hid.symm.trans (hkept h0))
  · obtain ⟨q, hq, hpin⟩ := h1.stack_pinned hf
    rw [hk, hr] at hq
    cases hq
    rw [hk] at hpin
    exact hm.pinned_other (h1.realms hr) hu hpin

/-- Between any two acts and between any two scopes that one act leaves, the stack of every
open scope is pinned, and it is one stack for each thread and realm; so is it while a scope
is laid, which ends on that stack. It stays pinned until its thread is out of the realm. -/
theorem open_scopes_pinned (v : Option Log.Verbosity) (acts : List (Nat × Act))
    (hl : (Arena.new v).Lawful acts) :
    let a := (Arena.new v).run acts
    (∀ t before after, a.frames t = before ++ after →
      ∀ u, ∀ f ∈ Function.update a.frames t after u,
        (∃ r, (a.leaveFrames t before).realm? f.realm = some r ∧
          r.Pinned u f.stack (depthIn f.realm (Function.update a.frames t after u))) ∧
        ∀ g ∈ Function.update a.frames t after u, g.realm = f.realm → g.stack = f.stack) ∧
    (∀ t key types, a.Permits t (.enter key types) →
      let p := a.obtainRealm t key
      let o := p.1.opening a.catalog (a.caller t) types p.2.store
      p.1.enter a.catalog (a.caller t) types p.2.store = Realm.ended (a.caller t) o ∧
      ∀ id x, o.1 = .ok (id, x) →
        o.2.1.Pinned t id (depthIn key (a.frames t) + 1) ∧
        (∀ f ∈ a.frames t, f.realm = key → f.stack = id) ∧
        ∀ u, u ≠ t → ∀ f ∈ a.frames u, f.realm = key →
          o.2.1.Pinned u f.stack (depthIn key (a.frames u))) ∧
    ∀ t act u key id r, a.Permits t act →
      let b := (a.step t act).2
      a.realm? key = some r → r.custody.held? u = some id →
      0 < depthIn key (a.frames u) → 0 < depthIn key (b.frames u) →
        ∃ r', b.realm? key = some r' ∧ r'.Pinned u id (depthIn key (b.frames u)) := by
  intro a
  have ha : a.Sound a.frames := sound_run (sound_new v) hl
  refine ⟨fun t before after hsplit u f hf => ?_, fun t key types hp => ?_, ?_⟩
  · obtain ⟨hb, -⟩ := leaveFrames_spec ha hsplit
    exact ⟨hb.stack_pinned hf, fun g hg h => hb.one_stack hf hg h⟩
  · exact ⟨Realm.enter_eq _ _ _ _ _, fun id x => opening_pinned ha hp⟩
  · intro t act u key id r hp b hr hid hbefore hafter
    have hs := step_spec ha hp
    obtain ⟨f, hf, hf', rfl⟩ := hs.stays hbefore hafter
    obtain ⟨q, hq, hfid⟩ := ha.framed hf
    rw [hr] at hq
    cases hq
    rw [hid] at hfid
    cases hfid
    exact hs.sound.stack_pinned hf'

def reclaimed : List (Nat × Act) :=
  [(0, .createRealm 0 { releaseIdle := true }), (0, .enter 0 []), (1, .requestReclaim 0),
   (0, .enter 0 []), (1, .requestReclaim 0), (0, .lookup 0 "f")]

theorem open_scopes_reclaimed :
    let a := (Arena.new none).run reclaimed
    a.frames 0 = [⟨0, 0⟩, ⟨0, 0⟩] ∧
      (∃ r, a.realm? 0 = some r ∧ r.Pinned 0 0 2) ∧
      ∃ r, (a.step 0 .leave).2.realm? 0 = some r ∧ r.Pinned 0 0 1 := by
  intro a
  have hframes : a.frames 0 = [⟨0, 0⟩, ⟨0, 0⟩] := by decide +kernel
  obtain ⟨hpin, -, hstay⟩ := open_scopes_pinned none reclaimed (by decide +kernel)
  obtain ⟨⟨r, hr, h⟩, -⟩ := hpin 0 [] (a.frames 0) (List.nil_append _).symm 0 ⟨0, 0⟩ (by
    rw [Function.update_self, hframes]
    exact List.mem_cons_self)
  rw [leaveFrames, List.foldl_nil] at hr
  rw [Function.update_self, hframes] at h
  have hleft : (a.step 0 .leave).2.frames 0 = [⟨0, 0⟩] := by decide +kernel
  obtain ⟨r', hr', h'⟩ := hstay 0 .leave 0 0 0 r trivial hr h.held
    (by rw [hframes]; decide) (by rw [hleft]; decide)
  rw [hleft] at h'
  exact ⟨hframes, ⟨r, hr, h⟩, r', hr', h'⟩

end Arena

end ScopedMethods
