import ScopedMethods.Session.Basic

/-!
# Steps on realms and threads

Scopes are entered and left through the arena. Answers show the counts of the
realm concerned; a chain that was looked up can be kept in a slot.
-/

set_option autoImplicit false

namespace ScopedMethods.Session

def obtainRealm (s : Session) (t key : Nat) : Realm × Session :=
  let (r, arena) := s.arena.obtainRealm t key
  (r, { s with arena := arena })

def lookup (s : Session) (t key : Nat) (name : String) : Option ChainId × Session :=
  match s.act t (.lookup key name) with
  | (.chain id, s) => (id, s)
  | (_, s) => (none, s)

/-- Looks up names in turn; names that are not laid over any type are left out. -/
def lookupAll (t key : Nat) : List String → Session → List ChainView × Session
  | [], s => ([], s)
  | name :: names, s =>
    let (id, s) := s.lookup t key name
    let (rest, s) := lookupAll t key names s
    match id with
    | none => (rest, s)
    | some id => (chainView s.store id :: rest, s)

def level (s : Session) (t key : Nat) : Level × Session :=
  match s.act t (.currentLevel key) with
  | (.level n, s) => (n, s)
  | (_, s) => (0, s)

def here (s : Session) (t key : Nat) : Bool × Session :=
  match s.act t (.activeHere key) with
  | (.flag b, s) => (b, s)
  | (_, s) => (false, s)

def call (s : Session) (id : Option ChainId) (index : Nat) (args : List String) : Answer :=
  match id with
  | none => .nothing
  | some id =>
    match (s.store.chain id).entries[index]? with
    | none => .failure .outOfRange
    | some e => invoke e.method args

def realmStep (s : Session) (t key : Nat) (step : RealmStep) : Answer × Session :=
  match step with
  | .create o => (.nothing, (s.act t (.createRealm key o)).2)
  | .destroy => (.nothing, (s.act t (.destroyRealm key)).2)
  | .options =>
    let (r, s) := s.obtainRealm t key
    (.options r.options, s)
  | .enter types =>
    match s.act t (.enter key types) with
    | (.refused f, s) => (.refused f (s.tallyOf key), s)
    | (_, s) => (.entered (s.tallyOf key), s)
  | .lookup name =>
    let (id, s) := s.lookup t key name
    (s.chainAnswer id, s)
  | .keep slot name =>
    let (id, s) := s.lookup t key name
    (.flag id.isSome, { s with kept := s.kept.set slot id })
  | .call name index args =>
    let (id, s) := s.lookup t key name
    (s.call id index args, s)
  | .here =>
    let (b, s) := s.here t key
    (.flag b, s)
  | .anywhere =>
    let (r, s) := s.obtainRealm t key
    (.flag r.activeAnywhere, s)
  | .level =>
    let (n, s) := s.level t key
    (.number n.toNat, s)
  | .usage name =>
    let (r, s) := s.obtainRealm t key
    (.count (r.usageCount s.store name), s)
  | .nameUsage name =>
    match s.act t (.nameUsage key name) with
    | (.counter c, s) => (.counter (s.store.counter c) true, s)
    | (_, s) => (.nothing, s)
  | .reclaim =>
    match s.act t (.requestReclaim key) with
    | (.number n, s) => (.number n, s)
    | (_, s) => (.nothing, s)
  | .tally =>
    let (r, s) := s.obtainRealm t key
    (.tally (s.tally r), s)
  | .view =>
    let (chains, s) := lookupAll t key s.names s
    let (n, s) := s.level t key
    let (b, s) := s.here t key
    (.view n b chains (s.tallyOf key), s)

def systemName? (s : Session) (t : Nat) (system : Bool) : Option (List UInt8) :=
  let c := s.caller t
  if system && !c.nickname.isEmpty then some ((Arena.systemName c).takeWhile (· != 0)) else none

def threadStep (s : Session) (t : Nat) (step : ThreadStep) : Answer × Session :=
  match step with
  | .leave result =>
    match s.act t .leave with
    | (.left key, s) => (.left result (s.tallyOf key), s)
    | (_, s) => (.noScope, s)
  | .raise message levels =>
    match s.act t (.raise levels) with
    | (.unwound n key, s) => (.unwound message n (s.tallyOf key), s)
    | (_, s) => (.noScope, s)
  | .exit =>
    match s.act t .exit with
    | (.flag b, s) => (.flag b, s)
    | (_, s) => (.nothing, s)
  | .nickname name system =>
    let s := (s.act t (.setNickname name system)).2
    (.nicknamed (s.caller t).nickname (s.systemName? t system), s)

def keptStep (s : Session) (step : KeptStep) : Answer × Session :=
  let kept := fun slot => (s.kept.get? slot).join
  match step with
  | .get slot => (s.chainAnswer (kept slot), s)
  | .drop slot =>
    (.number (if s.kept.contains slot then 1 else 0), { s with kept := s.kept.erase slot })
  | .same a b =>
    match kept a, kept b with
    | some x, some y =>
      let equal := Candidate.sameAll (s.store.chain x).entries (s.store.chain y).entries
      (.same (x == y) (some equal), s)
    | none, none => (.same true none, s)
    | _, _ => (.same false none, s)

end ScopedMethods.Session
