import ScopedMethods.Proofs.Workers

/-!
# Shifts

The states that a showcase comes to, with workers anywhere in their work and dispatches on
the main thread. A worker that starts in any of them says and answers what its index calls
for, and leaves the tallies of the realm as they were.
-/

set_option autoImplicit false

namespace ScopedMethods.Showcase

def after (x : Showcase) (r : Realm) (s : Store) : Showcase := { x with realm := r, store := s }

def hire (x : Showcase) (index : UInt64) : Showcase :=
  { x with
    store := x.store.note ⟨x.nextThread, workerName index⟩
      (.threadNicknamed x.nextThread (workerName index))
    nextThread := x.nextThread + 1 }

/-- What is done in a showcase: whole shifts of workers and whole dispatches, or any part of
them on a thread that has started. Neither the tally of scopes nor the level of a thread
may wrap around. -/
inductive Deed (x : Showcase) : Showcase → Prop
  | work (index : UInt64) (n : Nat) : Deed x (x.runWorker index n).2
  | dispatch (types : List TypeId) (name : String) (ty : TypeId) (receiver : Value) :
      Deed x (x.runDispatch types name ty receiver).2
  | forget : Deed x x.fresh
  | hire (index : UInt64) : Deed x (x.hire index)
  | enter {t : Caller} (ht : t.thread < x.nextThread) (types : List TypeId)
      (hroom : x.realm.openScopes + 3 < 2 ^ 64)
      (hdeep : x.realm.options.maxDepth = 0 →
        (x.realm.outlook x.store t.thread).level.toNat + 2 < 2 ^ 32) :
      Deed x (x.after (x.realm.enter x.catalog t types x.store).2.1
        (x.realm.enter x.catalog t types x.store).2.2)
  | leave {t : Caller} {id : Nat} (ht : t.thread < x.nextThread)
      (hheld : x.realm.custody.held? t.thread = some id)
      (hinside : (x.realm.outlook x.store t.thread).level ≠ 0) :
      Deed x (x.after (x.realm.leave t id x.store).1 (x.realm.leave t id x.store).2)
  | ask {t : Caller} (ht : t.thread < x.nextThread) (name : String) (ty : TypeId)
      (receiver : Value) :
      Deed x (x.after (Showcase.dispatch x.catalog t name ty receiver x.realm x.store).2.1
        (Showcase.dispatch x.catalog t name ty receiver x.realm x.store).2.2)
  | say (t : Caller) (severity : Log.Severity) (message : String) :
      Deed x (x.after x.realm (remark t severity message x.store))
  | exit {t : Caller} (ht : t.thread < x.nextThread) :
      Deed x (x.after (x.realm.threadExit t x.store).1 (x.realm.threadExit t x.store).2)

/-- The states that a showcase comes to after the types were loaded. -/
inductive Reached (v : Option Log.Verbosity) (o : Options) : Showcase → Prop
  | start : Reached v o (start v o)
  | deed {x y : Showcase} (hx : Reached v o x) (hd : Deed x y) : Reached v o y

/-- The types are those that were loaded, no thread that is to start is in a scope, and there
is room for one more worker. -/
structure Ready (v : Option Log.Verbosity) (o : Options) (x : Showcase) : Prop where
  catalog : x.catalog = library.catalog
  sound : x.realm.Sound x.store
  options : x.realm.options = o
  verbosity : x.store.journal.verbosity = v
  started : 0 < x.nextThread
  idle : ∀ {u : Nat}, x.nextThread ≤ u → x.realm.outlook x.store u = Outlook.idle
  room : x.realm.openScopes + 2 < 2 ^ 64
  deep : o.maxDepth = 0 → ∀ u : Nat, (x.realm.outlook x.store u).level.toNat + 1 < 2 ^ 32

variable {v : Option Log.Verbosity} {o : Options} {x y : Showcase} {t : Nat} {r : Realm} {s : Store}

namespace Ready

theorem move (h : Ready v o x) (ht : t < x.nextThread) (hm : Realm.Move t x.realm x.store r s)
    (hroom : r.openScopes + 2 < 2 ^ 64)
    (hdeep : o.maxDepth = 0 → (r.outlook s t).level.toNat + 1 < 2 ^ 32) :
    Ready v o (x.after r s) where
  catalog := h.catalog
  sound := hm.sound
  options := hm.options.trans h.options
  verbosity := hm.store.verbosity.trans h.verbosity
  started := h.started
  idle := fun hu => (hm.others (Nat.ne_of_gt (Nat.lt_of_lt_of_le ht hu))).trans (h.idle hu)
  room := hroom
  deep := by
    intro h0 u
    by_cases hu : u = t
    · rw [hu]
      exact hdeep h0
    · show (r.outlook s u).level.toNat + 1 < 2 ^ 32
      rw [hm.others hu]
      exact h.deep h0 u

theorem descend (h : Ready v o x) (ht : t < x.nextThread) (hm : Realm.Move t x.realm x.store r s)
    (hle : (r.outlook s t).level.toNat ≤ (x.realm.outlook x.store t).level.toNat) :
    Ready v o (x.after r s) := by
  have hroom := h.room
  have hopen := hm.openScopes
  exact h.move ht hm (by omega) fun h0 =>
    Nat.lt_of_le_of_lt (Nat.succ_le_succ hle) (h.deep h0 t)

theorem quiet (h : Ready v o x) (ht : t < x.nextThread) (hq : Realm.Quiet t x.realm x.store r s) :
    Ready v o (x.after r s) :=
  h.descend ht hq.move (by rw [hq.same])

theorem hire (h : Ready v o x) (index : UInt64) : Ready v o (x.hire index) where
  catalog := h.catalog
  sound := h.sound.note _ _
  options := h.options
  verbosity := (Journal.verbosity_note _ _ _).trans h.verbosity
  started := Nat.succ_pos _
  idle := fun hu => h.idle (Nat.le_of_succ_le hu)
  room := h.room
  deep := h.deep

theorem fresh (h : Ready v o x) : Ready v o x.fresh where
  catalog := h.catalog
  sound :=
    { custody := h.sound.custody
      bench := h.sound.bench.same ⟨rfl, rfl, rfl⟩
      ids := h.sound.ids
      live := h.sound.live
      limit := h.sound.limit }
  options := h.options
  verbosity := h.verbosity
  started := h.started
  idle := h.idle
  room := h.room
  deep := h.deep

theorem stands (h : Ready v o x) (t : Nat) :
    Stands v o.maxDepth 2 (x.realm.outlook x.store t) t x.realm x.store :=
  ⟨h.sound, h.verbosity, congrArg Options.maxDepth h.options, rfl, h.room⟩

theorem stands_hired (h : Ready v o x) (index : UInt64) :
    Stands v o.maxDepth 2 Outlook.idle x.nextThread (x.hire index).realm (x.hire index).store := by
  have hidle : (x.hire index).realm.outlook (x.hire index).store x.nextThread = Outlook.idle :=
    h.idle (Nat.le_refl _)
  rw [← hidle]
  exact (h.hire index).stands x.nextThread

end Ready

theorem same_load (t : Caller) (ls : List Loading) (tree : TypeTree) (s : Store) :
    s.Same (load t ls tree s).2 := by
  induction ls generalizing tree s with
  | nil => exact .refl s
  | cons l ls ih =>
    cases l with
    | type name parent => exact (Arena.same_register tree t name parent s).trans (ih _ _)
    | method on d => exact (Arena.same_declare tree t on d s).trans (ih _ _)

theorem ready_start (v : Option Log.Verbosity) (o : Options) : Ready v o (start v o) := by
  have hsame := (((Store.Same.refl (Store.new v)).note ⟨0, ""⟩
    (.treeCreated TypeTree.rootName)).note mainCaller
      (.threadNicknamed mainCaller.thread mainCaller.nickname)).trans
        (same_load mainCaller loadings TypeTree.new _)
  have hcatalog := catalog_start v o
  simp only [start] at hcatalog ⊢
  generalize load mainCaller loadings TypeTree.new _ = p at hsame hcatalog ⊢
  obtain ⟨tree, s⟩ := p
  have hverbosity := (((hsame.note mainCaller
    (.remark (some .uncategorized) .info s!"Loaded [{tree.size}] types.")).note mainCaller
      (.custodyCreated (Realm.new 0 o).custody.name)).note mainCaller
        (.realmCreated 0 o.text)).verbosity
  exact ⟨hcatalog, Realm.sound_new 0 o _, rfl, hverbosity, Nat.one_pos, fun _ => rfl,
    show 0 + 2 < 2 ^ 64 by decide, fun _ _ => show 0 + 1 < 2 ^ 32 by decide⟩

def workerLine (index : UInt64) (message : String) : List UInt8 :=
  s!"INFO {workerName index}: ".toUTF8.toList ++ message.toUTF8.toList

theorem lines_eq (x : Showcase) : x.lines = x.store.journal.remarks.map fun e =>
    s!"{e.event.severity.text} {e.caller.nickname}: ".toUTF8.toList ++ e.event.message := rfl

theorem lines_said {number : Nat} {index : UInt64} {messages : List String}
    (h : y.store.journal.remarks = x.store.journal.remarks ++ messages.map fun m =>
      ⟨⟨number, workerName index⟩, .remark (some .uncategorized) .info m⟩) :
    y.lines = x.lines ++ messages.map (workerLine index) := by
  rw [lines_eq, h, List.map_append, List.map_map, lines_eq]
  rfl

/-- A shift of a worker: how it ends, and what it leaves. If its lines are of interest, they
are these. -/
structure Ran (q : Prop) (v : Option Log.Verbosity) (o : Options) (index : UInt64)
    (x : Showcase) (p : Except Failure Unit × Showcase) (result : Except Failure Unit)
    (messages : List String) : Prop where
  result : p.1 = result
  ready : Ready v o p.2
  active : p.2.active = x.active
  usage : ∀ name, p.2.realm.usageCount p.2.store name = x.realm.usageCount x.store name
  lines : q → p.2.lines = x.lines ++ messages.map (workerLine index)

theorem runWorker_eq (x : Showcase) (index : UInt64) (n : Nat) :
    x.runWorker index n =
      let t : Caller := ⟨x.nextThread, workerName index⟩
      let w := work x.catalog t index n (x.hire index).realm (x.hire index).store
      let e := w.2.1.threadExit t w.2.2
      (w.1, (x.hire index).after e.1 e.2) := rfl

theorem ran_of_gives {q : Prop} {index : UInt64} {n : Nat} {result : Except Failure Unit}
    {messages : List String} (h : Ready v o x)
    (hwork : Gives q ⟨x.nextThread, workerName index⟩ (x.hire index).realm (x.hire index).store
      (work library.catalog ⟨x.nextThread, workerName index⟩ index n (x.hire index).realm
        (x.hire index).store) result messages) :
    Ran q v o index x (x.runWorker index n) result messages := by
  have hhired := h.hire index
  have hidle := (h.stands_hired index).view
  rw [runWorker_eq, h.catalog]
  obtain ⟨hresult, hmade⟩ := hwork
  simp only at hresult hmade ⊢
  generalize work library.catalog _ index n _ _ = w at hresult hmade ⊢
  obtain ⟨hexit, hleft⟩ := Realm.threadExit_spec hmade.quiet.move.sound
    ⟨x.nextThread, workerName index⟩
  have hmove := hmade.quiet.move.trans hexit
  have hready := hhired.descend (Nat.lt_succ_self _) hmove (by rw [hleft]; exact Nat.zero_le _)
  refine ⟨hresult, hready, ?_, fun name => ?_, fun hq => ?_⟩
  · have hopen := hmove.openScopes
    rw [hleft, hidle] at hopen
    exact hmove.sound.active.trans
      ((congrArg UInt64.ofNat (Nat.add_right_cancel hopen)).trans h.sound.active.symm)
  · have heffect := hmove.inEffect name
    rw [hleft, hidle] at heffect
    exact (hmove.sound.counted name).trans
      ((congrArg Int32.ofNat (Nat.add_right_cancel heffect)).trans (hhired.sound.counted name).symm)
  · have hnickname : x.store.Unremarked (x.hire index).store :=
      (Store.Unremarked.refl x.store).note _ (e := .threadNicknamed _ _) (by
        show some Log.Component.logging ≠ _
        decide)
    have hexited := Realm.unremarked_threadExit ⟨x.nextThread, workerName index⟩ w.2.1 w.2.2
    exact lines_said (Eq.trans hexited ((hmade.remarks hq).trans (congrArg (· ++ _) hnickname)))

theorem runWorker_ok (h : Ready v o x) (index : UInt64) {n : Nat}
    (hdepth : o.maxDepth ≠ 1 ∨ n = 0) :
    Ran (Plain v) v o index x (x.runWorker index n) (.ok ()) (workRemarks index n) :=
  ran_of_gives h (work_given n (h.stands_hired index) hdepth index)

theorem runWorker_refused (h : Ready v o x) (index : UInt64) {n : Nat} (hdepth : o.maxDepth = 1)
    (hn : n ≠ 0) :
    Ran True v o index x (x.runWorker index n) (.error (.code .nestingTooDeep)) [] := by
  have hstands := h.stands_hired index
  rw [hdepth] at hstands
  exact ran_of_gives h (work_refused hstands hn index)

theorem runDispatch_eq (x : Showcase) (types : List TypeId) (name : String) (ty : TypeId)
    (receiver : Value) : x.runDispatch types name ty receiver =
      let w := if types.isEmpty then dispatch x.catalog mainCaller name ty receiver x.realm x.store
        else x.realm.within x.catalog mainCaller types
          (dispatch x.catalog mainCaller name ty receiver) x.store
      (w.1, x.after w.2.1 w.2.2) := rfl

theorem ready_runDispatch (h : Ready v o x) (types : List TypeId) (name : String) (ty : TypeId)
    (receiver : Value) : Ready v o (x.runDispatch types name ty receiver).2 := by
  have hstands := h.stands mainCaller.thread
  rw [runDispatch_eq]
  apply h.quiet h.started
  split
  · exact (dispatch_made hstands x.catalog name ty receiver).quiet
  · exact (dispatch_within hstands (fun h0 => h.deep h0 _) name ty receiver).quiet

theorem level_of_entry {c : Catalog} {types : List TypeId} {r' : Realm} {s' : Store}
    {result : Except Failure Nat} (he : Realm.Entry c t types r s result r' s') :
    (r'.outlook s' t).level.toNat ≤ (r.outlook s t).level.toNat + 1 := by
  cases result with
  | error f =>
    rw [he.refused f rfl]
    exact Nat.le_succ _
  | ok id => exact (he.entered id rfl).2.level.le

theorem ready_deed (h : Ready v o x) (hd : Deed x y) : Ready v o y := by
  cases hd with
  | work index n =>
    by_cases hfull : o.maxDepth = 1 ∧ n ≠ 0
    · exact (runWorker_refused h index hfull.1 hfull.2).ready
    · exact (runWorker_ok h index (by tauto)).ready
  | dispatch types name ty receiver => exact ready_runDispatch h types name ty receiver
  | forget => exact h.fresh
  | hire index => exact h.hire index
  | @enter t ht types hroom hdeep =>
    -- Entered or not, the thread is in one more scope at most.
    have he := Realm.enter_spec h.sound x.catalog t types fun h0 =>
      h.deep (h.options ▸ h0) t.thread
    have hopen := he.move.openScopes
    have hlevel := level_of_entry he
    exact h.move ht he.move (by omega) fun h0 =>
      Nat.lt_of_le_of_lt (Nat.succ_le_succ hlevel) (hdeep (by rw [h.options]; exact h0))
  | @leave t id ht hheld hinside =>
    have hpos : 0 < (x.realm.outlook x.store t.thread).level.toNat :=
      Nat.pos_of_ne_zero fun h0 => hinside (UInt32.toNat_inj.1 h0)
    obtain ⟨hm, hout, -⟩ := Realm.leave_spec h.sound hheld hpos
    have hlevel := Site.level_leave hpos
    exact h.descend ht hm (by rw [hout]; exact Nat.le_of_lt (Nat.lt_of_succ_le hlevel.le))
  | ask ht name ty receiver =>
    exact h.quiet ht (dispatch_made (h.stands _) x.catalog name ty receiver).quiet
  | say t severity message =>
    exact h.quiet h.started ((Realm.Quiet.refl h.sound mainCaller.thread).note t _)
  | exit ht =>
    obtain ⟨hm, hout⟩ := Realm.threadExit_spec h.sound _
    exact h.descend ht hm (by rw [hout]; exact Nat.zero_le _)

theorem ready_reached (h : Reached v o x) : Ready v o x := by
  induction h with
  | start => exact ready_start v o
  | deed _ hd ih => exact ready_deed ih hd

/-- Whatever the other threads did, a worker ends as the depth limit has it, says what its
index calls for, and leaves the tally of scopes and all usage counts as they were. -/
theorem runWorker_by_index (v : Option Log.Verbosity) (o : Options) {x : Showcase}
    (hx : Reached v o x) (index : UInt64) (n : Nat) :
    let p := x.runWorker index n
    (o.maxDepth ≠ 1 ∨ n = 0 → p.1 = .ok () ∧
      (Plain v → p.2.lines = x.lines ++ (workRemarks index n).map (workerLine index))) ∧
    (o.maxDepth = 1 → n ≠ 0 → p.1 = .error (.code .nestingTooDeep) ∧ p.2.lines = x.lines) ∧
    p.2.active = x.active ∧
    ∀ name, p.2.realm.usageCount p.2.store name = x.realm.usageCount x.store name := by
  intro p
  have h := ready_reached hx
  by_cases hfull : o.maxDepth = 1 ∧ n ≠ 0
  · have hran := runWorker_refused h index hfull.1 hfull.2
    refine ⟨fun hfree => absurd hfull (by tauto), fun _ _ => ⟨hran.result, ?_⟩, hran.active,
      hran.usage⟩
    exact (hran.lines trivial).trans (List.append_nil _)
  · have hran := runWorker_ok h index (n := n) (by tauto)
    exact ⟨fun _ => ⟨hran.result, hran.lines⟩, fun hone hn => absurd ⟨hone, hn⟩ hfull,
      hran.active, hran.usage⟩

theorem runWorker_in_turn :
    let v := some (Log.Verbosity.new .info)
    let x := ((start v {}).runWorker 4 2).2
    let p := x.runWorker 7 1
    let y := ((start v { maxDepth := 1 }).runDispatch [verbose] "shout" string (.text "a")).2
    let q := y.runWorker 7 1
    p.1 = .ok () ∧ p.2.lines = x.lines ++ (workRemarks 7 1).map (workerLine 7) ∧
      p.2.active = x.active ∧ q.1 = .error (.code .nestingTooDeep) ∧ q.2.lines = y.lines := by
  intro v x p y q
  obtain ⟨hwell, -, hactive, -⟩ :=
    runWorker_by_index v {} (.deed .start (.work 4 2) : Reached v {} x) 7 1
  obtain ⟨-, hrefused, -⟩ := runWorker_by_index v { maxDepth := 1 }
    (.deed .start (.dispatch [verbose] "shout" string (.text "a")) :
      Reached v { maxDepth := 1 } y) 7 1
  obtain ⟨hresult, hlines⟩ := hwell (.inl (by decide))
  exact ⟨hresult, hlines (by decide), hactive, hrefused rfl (by decide)⟩

end ScopedMethods.Showcase
