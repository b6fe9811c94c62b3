import ScopedMethods.Chain.Basic
import ScopedMethods.Log.Verbosity

/-!
# Events

What the library reports, as data: who reports it, at which severity, for which
component, and its wording.
-/

set_option autoImplicit false

namespace ScopedMethods

structure Caller where
  thread : Nat
  nickname : String
deriving DecidableEq, Repr

structure CustodyName where
  nickname : String
  id : Nat
  /-- The kind of state held. -/
  kind : String
deriving DecidableEq, Repr

def CustodyName.text (n : CustodyName) : String := s!"[{n.nickname}]@{Text.address n.id}"

inductive ReleaseCause where
  | explicitRelease
  | reclaimRequest
deriving DecidableEq, Repr

def ReleaseCause.text : ReleaseCause → String
  | explicitRelease => "explicit release"
  | reclaimRequest => "reclaim request"

inductive Event where
  /-- A statement of the program that uses the library. -/
  | remark (component : Option Log.Component) (severity : Log.Severity) (message : String)
  | treeCreated (rootName : String)
  | typeRegistered (name : String) (id : TypeId) (parentName : String)
  | methodDeclared (typeName method : String) (eligible : Bool) (eligibleNow declaredNow : Nat)
  | refused (object : Nat) (cause : Refusal)
  | codeEmitted (component : Log.Component) (code : ErrorCode)
  | counterCreated (ledger : Nat) (name : String) (names : Nat)
  | stackCreated (stack thread : Nat)
  | scopeEntered (stack : Nat) (level : Level)
  | typeLaid (stack : Nat) (level : Level) (typeName : String) (ancestors : Nat)
  | chainCreated (stack : Nat) (id : ChainId) (chain : Chain)
  | candidateAdded (stack : Nat) (method : Method) (id : ChainId) (chain : Chain) (usage : Int32)
  | scopeLeft (stack reverted : Nat) (level : Level)
  | stackAbandoned (stack : Nat) (level : Level)
  | stackDestroyed (stack : Nat)
  | custodyCreated (custody : CustodyName)
  | stateAdded (custody : CustodyName) (state thread : Nat) (nickname : String)
  | statePinned (custody : CustodyName) (state : Nat)
  | stateReleased (custody : CustodyName) (state thread : Nat) (cause : ReleaseCause)
  | reclaimRequested (custody : CustodyName) (states : Nat)
  | custodyClosing (custody : CustodyName)
  | stateDeleted (custody : CustodyName) (state thread : Nat) (nickname : String)
  | realmCreated (realm : Nat) (options : String)
  | typesLaid (realm types : Nat) (level : Level)
  | realmClosing (realm active names : Nat)
  | threadNicknamed (thread : Nat) (nickname : String)
  | threadRenamed (systemName : List UInt8)

namespace Event

/-- A refused call concerns the type tree or a scope stack. -/
def refusalComponent : Refusal → Log.Component
  | .atMaximum _ => .scopes
  | _ => .metadata

def component : Event → Option Log.Component
  | remark c .. => c
  | treeCreated .. | typeRegistered .. | methodDeclared .. => some .metadata
  | refused _ cause => some (refusalComponent cause)
  | codeEmitted c _ => some c
  | counterCreated .. | stackCreated .. | scopeEntered .. | typeLaid .. | chainCreated ..
  | candidateAdded .. | scopeLeft .. | stackAbandoned .. | stackDestroyed ..
  | realmCreated .. | typesLaid .. | realmClosing .. => some .scopes
  | custodyCreated .. | stateAdded .. | statePinned .. | stateReleased ..
  | reclaimRequested .. | custodyClosing .. | stateDeleted .. => some .utilities
  | threadNicknamed .. | threadRenamed .. => some .logging

def severity : Event → Log.Severity
  | remark _ s _ => s
  | refused .. | codeEmitted .. | stackAbandoned .. => .warning
  | treeCreated .. | custodyCreated .. | stateAdded .. | stateReleased ..
  | reclaimRequested .. | custodyClosing .. | stateDeleted .. | realmCreated ..
  | realmClosing .. | threadNicknamed .. => .info
  | typeRegistered .. | methodDeclared .. | counterCreated .. | stackCreated ..
  | scopeEntered .. | typeLaid .. | chainCreated .. | scopeLeft .. | stackDestroyed ..
  | statePinned .. | typesLaid .. | threadRenamed .. => .trace
  | candidateAdded .. => .data

def treeText (s : String) : String := s!"Type_table [{Text.address 0}]: {s}"

def stackText (stack : Nat) (s : String) : String := s!"Scope_stack [{Text.address stack}]: {s}"

def realmText (realm : Nat) (s : String) : String := s!"Runtime [{Text.address realm}]: {s}"

def custodyText (custody : CustodyName) (s : String) : String :=
  s!"Tl_registry[{custody.text}]: {s}"

/-- The explanation of a refusal. A nameless method has none but its error code. -/
def refusalText? (object : Nat) : Refusal → Option String
  | .parentUnknown name parent =>
    some <| treeText s!"Cannot register type [{name}]: parent [{parent.number}] unknown."
  | .nameTaken name => some <| treeText s!"Cannot register type [{name}]: name taken."
  | .methodUnnamed => none
  | .declaringUnknown method type =>
    some <| treeText s!"Cannot add method [{method}]: declaring type [{type.number}] unknown."
  | .parameterUnknown method type =>
    some <| treeText s!"Cannot add method [{method}]: parameter type [{type.number}] unknown."
  | .atMaximum level =>
    some <| stackText object <| s!"Cannot enter scope: already at level [{level}] " ++
      "which is the maximum nesting depth."

def words : Event → String
  | remark _ _ message => message
  | treeCreated rootName => treeText s!"Created with root type [{rootName}]."
  | typeRegistered name id parentName =>
    treeText s!"Registered type [{name}] id [{id.number}] with parent [{parentName}]."
  | methodDeclared typeName method eligible eligibleNow declaredNow =>
    treeText <| s!"Type [{typeName}] declares method [{method}]; " ++
      s!"overlay-eligible? = [{Text.digit eligible}]; " ++
      s!"eligible/declared now [{eligibleNow}/{declaredNow}]."
  | refused object cause => (refusalText? object cause).getD ""
  | codeEmitted _ code => s!"Error code emitted: [{code.text}] [{code.message}]."
  | counterCreated ledger name names =>
    s!"Usage_registry [{Text.address ledger}]: Created counter for name [{name}]; " ++
      s!"names tracked now [{names}]."
  | stackCreated stack thread => stackText stack s!"Created for thread [{thread}]."
  | scopeEntered stack level => stackText stack s!"Entered scope; level now [{level}]."
  | typeLaid stack level typeName ancestors =>
    stackText stack <| s!"At level [{level}] applying overlay type [{typeName}] " ++
      s!"with [{ancestors}] types in its ancestry below the root."
  | chainCreated stack id chain => stackText stack s!"Created [{chain.text id}]."
  | candidateAdded stack method id chain usage =>
    stackText stack s!"Added [{method.text}] to [{chain.text id}]; usage now [{usage}]."
  | scopeLeft stack reverted level =>
    stackText stack s!"Left scope, reverting [{reverted}] chains; level now [{level}]."
  | stackAbandoned stack level =>
    stackText stack <| s!"Destroyed while [{level}] scopes are active; unwinding them now.  " ++
      "Their units of work may still be running on another thread."
  | stackDestroyed stack => stackText stack "Destroyed."
  | custodyCreated custody =>
    custodyText custody s!"Registry created (watched type has ID [{custody.kind}])."
  | stateAdded custody state thread nickname =>
    custodyText custody <| s!"Adding thread-local-state @[{Text.address state}] " ++
      s!"for thread ID [{thread}]/nickname [{nickname}]."
  | statePinned custody state =>
    custodyText custody <| s!"Thread-local-state @[{Text.address state}] is pinned; " ++
      "ignoring reclaim request."
  | stateReleased custody state thread cause =>
    custodyText custody <| s!"Releasing thread-local-state @[{Text.address state}] " ++
      s!"for thread ID [{thread}] ({cause.text})."
  | reclaimRequested custody states =>
    custodyText custody <| s!"Requested reclaim of [{states}] thread-local-states; " ++
      "each owning thread will comply at its next access unless pinned."
  | custodyClosing custody =>
    custodyText custody <|
      s!"Registry shutting down (watched type has ID [{custody.kind}]).  " ++
      "Will now delete thread-local-state for each thread that has not exited before this point."
  | stateDeleted custody state thread nickname =>
    custodyText custody <| s!"Deleting thread-local-state @[{Text.address state}] " ++
      s!"for thread ID [{thread}]/nickname [{nickname}]."
  | realmCreated realm options => realmText realm s!"Created with options:\n{options}"
  | typesLaid realm types level =>
    realmText realm s!"Registering [{types}] overlay types at level [{level}]."
  | realmClosing realm active names =>
    realmText realm <| s!"Shutting down; [{active}] scopes active; " ++
      s!"[{names}] method names seen."
  | threadNicknamed thread nickname =>
    let shown := if nickname.isEmpty then "<its ID>" else nickname
    s!"Thread ID [{thread}] will appear in log lines as [{shown}]."
  | threadRenamed _ => ""

/-- The wording in bytes: a cut name need not be whole characters. -/
def message : Event → List UInt8
  | threadRenamed name =>
    "OS thread name is now [".toUTF8.toList ++ name ++ "].".toUTF8.toList
  | e => e.words.toUTF8.toList

end Event

end ScopedMethods
