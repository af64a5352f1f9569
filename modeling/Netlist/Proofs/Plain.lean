-- Plain reading: what a document adds to the outline of a design. Nothing has a number
-- here; names are texts, types are trees, and a namespace is a list. Errors and warnings
-- are those of a load, which reads the same things in the same order.
import Netlist.Document.Load
import Netlist.Document.Outline
import Netlist.Proofs.Drafts
import Netlist.Proofs.TypeShapes

namespace Netlist.Plain

open Document (Reading members items required optional symbolPair readMetadata readMetadata?
  readLength readKind argMembers unknownKeyWarning connectionParts quoted)

/-- The namespaces of an outline. -/
abbrev Scopes := List (String × Outline.Namespace)

/-! ## Types -/

/-- The leaf that documents call by this word. -/
def leafByName : String → Option (TypeTree String)
  | "Any" => some .any
  | "BitIn" => some .bitIn
  | "BitOut" => some .bitOut
  | _ => none

mutual

def readType : Json → Reading (TypeTree String)
  | .string word =>
    match leafByName word with
    | some t => return t
    | none => throw (.type s!"{word} is not a type!")
  | .array (.string kind :: parts) =>
    if kind = "Array" then readArray parts
    else if kind = "Record" then readRecord parts
    else throw (.type s!"{kind} is not a type!")
  | .array _ => throw (.type "compound type node must start with a kind name")
  | node => throw (.type s!"Error parsing Type: {node.compact}")

def readArray : List Json → Reading (TypeTree String)
  | [length, element] => do
    let n ← readLength length
    return .array n (← readType element)
  | _ => throw (.type "Array type must be [\"Array\", length, element]")

def readRecord : List Json → Reading (TypeTree String)
  | [.array entries] => do
    let fields ← readFields entries
    match TypeTable.firstRepeat (Assoc.keys fields) with
    | some name => throw (.ofGraph (.duplicateField name))
    | none => return .record fields
  | _ => throw (.type "Record type must be [\"Record\", [[field, type], ...]]")

def readFields : List Json → Reading (List (String × TypeTree String))
  | [] => return []
  | .array [.string name, node] :: rest => do
    let t ← readType node
    return (name, t) :: (← readFields rest)
  | entry :: _ => throw (.type s!"Record field must be [name, type], found {entry.compact}")

end

/-- The words for leaves are those by which a design finds them. -/
theorem isSome_leafByName (word : String) :
    (leafByName word).isSome = (TypeTable.leafByName word).isSome := by
  unfold leafByName TypeTable.leafByName
  split <;> simp_all

theorem exists_leafByName {word : String} {id : TypeId}
    (leaf : TypeTable.leafByName word = some id) : ∃ t, leafByName word = some t := by
  rw [← Option.isSome_iff_exists, isSome_leafByName, leaf]
  rfl

theorem readType_leaf {word : String} {t : TypeTree String} (leaf : leafByName word = some t) :
    readType (.string word) = .ok t := by
  rw [readType, leaf]
  rfl

theorem readType_array (length element : Json) :
    readType (.array [.string "Array", length, element]) = (do
      let n ← readLength length
      return .array n (← readType element)) := by
  rw [readType, if_pos rfl, readArray]

theorem readType_record (entries : List Json) :
    readType (.array [.string "Record", .array entries]) = (do
      let fields ← readFields entries
      match TypeTable.firstRepeat (Assoc.keys fields) with
      | some name => throw (.ofGraph (.duplicateField name))
      | none => return .record fields) := by
  rw [readType, if_neg (by decide), if_pos rfl, readRecord]

theorem readType_malformed {node : Json} {text : String} (h : Document.Malformed node text) :
    readType node = .error (.type text) := by
  cases h with
  | @word word unknown =>
    have none : leafByName word = none := by
      rw [← Option.not_isSome_iff_eq_none, isSome_leafByName, unknown]
      exact Bool.false_ne_true
    rw [readType, none]
    rfl
  | array other =>
    rw [readType, if_pos rfl, readArray]
    · rfl
    · exact other
  | record other =>
    rw [readType, if_neg (by decide), if_pos rfl, readRecord]
    · rfl
    · exact other
  | kind notArray notRecord =>
    rw [readType, if_neg notArray, if_neg notRecord]
    rfl
  | parts other =>
    rw [readType]
    · rfl
    · exact other
  | node notWord notArray =>
    rw [readType]
    · rfl
    · exact notWord
    · exact fun kind parts => notArray _
    · exact notArray

theorem readFields_noField {entry : Json} (h : Document.NoField entry) (rest : List Json) :
    readFields (entry :: rest) =
      .error (.type s!"Record field must be [name, type], found {entry.compact}") := by
  rw [readFields]
  · rfl
  · exact h

/-! ## Parameters and arguments -/

def readParamMembers (params : List (String × ParamKind)) :
    List (String × Json) → Reading (List (String × ParamKind))
  | [] => return params
  | (name, node) :: rest => do
    let kind ← readKind name node
    readParamMembers (Assoc.set name kind params) rest

def readParams (node : Json) : Reading (List (String × ParamKind)) :=
  match node with
  | .null => return []
  | .object ms => readParamMembers [] ms
  | _ => throw (.param s!"parameter declarations must be an object, found {node.compact}")

def readParams? (ms : List (String × Json)) (key : String) :
    Reading (List (String × ParamKind)) :=
  match Assoc.get? key ms with
  | some node => readParams node
  | none => return []

def readArg (kind : ParamKind) (key what : String) (node : Json) : Reading (Option ArgTree) :=
  match kind with
  | .int => return node.asInt64?.map .int
  | .string => return node.asString?.map .string
  | .type => do
    let t ← (readType node).mapError fun e => .arg s!"argument '{key}' for {what}: {e.message}"
    return some (.type t)

def readBindings (ms : List (String × Json)) (what : String) :
    List (String × ParamKind) → Reading (List (String × ArgTree))
  | [] => return []
  | (key, kind) :: rest =>
    match Assoc.get? key ms with
    | none => throw (.arg s!"missing argument '{key}' for {what}")
    | some node => do
      match ← readArg kind key what node with
      | some a => return (key, a) :: (← readBindings ms what rest)
      | none => throw (.arg
          s!"argument '{key}' for {what} must be {kind.text}, found {node.compact}")

def unknownKeys (params : List (String × ParamKind)) (ms : List (String × Json)) : List String :=
  (Assoc.keys ms).filter fun key => !decide (key ∈ Assoc.keys params)

def readArgs (params : List (String × ParamKind)) (node : Json) (what : String) (strict : Bool) :
    Reading (List (String × ArgTree) × List Diagnostic) := do
  let ms ← argMembers node what
  let args ← readBindings ms what params
  match strict, unknownKeys params ms with
  | true, key :: _ => throw (.arg s!"unexpected argument '{key}' for {what}")
  | _, unknown => return (args, unknown.map (unknownKeyWarning what))

/-! ## Symbols -/

/-- What a name in a namespace can stand for. -/
inductive Symbol where
  | module (m : Outline.Module)
  | generator (g : Outline.Generator)

def Symbol.kind : Symbol → TargetKind
  | module _ => .module
  | generator _ => .generator

/-- The parameters that an instance of it must bind. -/
def Symbol.params : Symbol → List (String × ParamKind)
  | module m => m.params
  | generator g => g.params

def symbolIn? (ns : Outline.Namespace) (name : String) : Option Symbol :=
  match Assoc.get? name ns.modules with
  | some m => some (.module m)
  | none => (Assoc.get? name ns.generators).map .generator

def symbol? (scopes : Scopes) (scope name : String) : Option Symbol :=
  (Assoc.get? scope scopes).bind fun ns => symbolIn? ns name

/-! ## Declarations -/

/-- A declared module whose definition is still to be read. -/
structure Pending where
  scope : String
  name : String
  node : Json

def requireFree (ns : Outline.Namespace) (scope name : String) : Reading Unit :=
  if name ∈ Assoc.keys ns.modules ∨ name ∈ Assoc.keys ns.generators then
    throw (.ofGraph (.duplicateSymbol scope name))
  else return

def declareModule (scope name : String) (node : Json) (ns : Outline.Namespace) :
    Reading (Outline.Namespace × List Pending) := do
  let what := s!"module {scope}.{name}"
  let ms ← members node what
  let type ← readType (← required ms "type" what)
  let params ← readParams? ms "configparams"
  requireFree ns scope name
  let metadata ← readMetadata? ms "metadata" what
  return ({ ns with modules := ns.modules ++ [(name, ⟨type, params, metadata, none⟩)] },
    ((optional ms "def").map (Pending.mk scope name)).toList)

def declareModules (scope : String) :
    List (String × Json) → Outline.Namespace → Reading (Outline.Namespace × List Pending)
  | [], ns => return (ns, [])
  | (name, node) :: rest, ns => do
    let (ns, first) ← declareModule scope name node ns
    let (ns, more) ← declareModules scope rest ns
    return (ns, first ++ more)

def declareGenerator (scope name : String) (node : Json) (ns : Outline.Namespace) :
    Reading Outline.Namespace := do
  let what := s!"generator {scope}.{name}"
  let ms ← members node what
  let genparams ← readParams? ms "genparams"
  let params ← readParams? ms "configparams"
  requireFree ns scope name
  let metadata ← readMetadata? ms "metadata" what
  return { ns with generators := ns.generators ++ [(name, ⟨genparams, params, metadata⟩)] }

def declareGenerators (scope : String) :
    List (String × Json) → Outline.Namespace → Reading Outline.Namespace
  | [], ns => return ns
  | (name, node) :: rest, ns => do
    declareGenerators scope rest (← declareGenerator scope name node ns)

def declareModulesOf (name : String) (ms : List (String × Json)) (ns : Outline.Namespace) :
    Reading (Outline.Namespace × List Pending) :=
  match optional ms "modules" with
  | some node => do declareModules name (← members node s!"modules of {name}") ns
  | none => return (ns, [])

def declareGeneratorsOf (name : String) (ms : List (String × Json)) (ns : Outline.Namespace) :
    Reading Outline.Namespace :=
  match optional ms "generators" with
  | some node => do declareGenerators name (← members node s!"generators of {name}") ns
  | none => return ns

/-- The namespace with what a document declares in it. -/
def declareNamespace (name : String) (node : Json) (ns : Outline.Namespace) :
    Reading (Outline.Namespace × List Pending) :=
  if node.isNull then return (ns, [])
  else do
    let ms ← members node s!"namespace {name}"
    let (ns, pending) ← declareModulesOf name ms ns
    return (← declareGeneratorsOf name ms ns, pending)

def declareNamespaces : List (String × Json) → Scopes → Reading (Scopes × List Pending)
  | [], scopes => return (scopes, [])
  | (name, node) :: rest, scopes => do
    let (ns, first) ← declareNamespace name node ((Assoc.get? name scopes).getD ⟨[], []⟩)
    let (scopes, more) ← declareNamespaces rest (Assoc.set name ns scopes)
    return (scopes, first ++ more)

/-! ## Instances -/

def requireModule (kind : TargetKind) (genargs : Bool) (what label : String) : Reading Unit :=
  match kind, genargs with
  | .module, false => return
  | .module, true => throw (.structural s!"{what} has genargs but {label} is a module")
  | .generator, true =>
    throw (.notImplemented s!"generator instances ({what} instantiates {label})")
  | .generator, false =>
    throw (.structural s!"{what} instantiates generator {label} without genargs")

def requireNew (owner name : String) (instances : List (String × Outline.Instance)) :
    Reading Unit :=
  if name = Design.selfWord then throw (.ofGraph (.reservedInstanceName Design.selfWord))
  else if name ∈ Assoc.keys instances then throw (.ofGraph (.duplicateInstance owner name))
  else return

def requireSymbol (scopes : Scopes) (scope name : String) : Reading Symbol :=
  match symbol? scopes scope name with
  | some symbol => return symbol
  | none => throw (.ofGraph (.missingSymbol scope name))

def readInstance (strict : Bool) (scopes : Scopes) (owner name : String) (node : Json)
    (instances : List (String × Outline.Instance)) :
    Reading (List (String × Outline.Instance) × List Diagnostic) := do
  let what := s!"instance {name} in {owner}"
  let ms ← members node what
  let (scope, ref) ← symbolPair (← required ms "instref" what) s!"instref of {what}"
  let symbol ← requireSymbol scopes scope ref
  let (config, warnings) ←
    readArgs symbol.params ((Assoc.get? "config" ms).getD .null) what strict
  requireModule symbol.kind (Assoc.get? "genargs" ms).isSome what (scope ++ "." ++ ref)
  requireNew owner name instances
  let metadata ← readMetadata? ms "metadata" what
  return (instances ++ [(name, ⟨.module, (scope, ref), none, config, metadata⟩)], warnings)

def readInstances (strict : Bool) (scopes : Scopes) (owner : String) :
    List (String × Json) → List (String × Outline.Instance) →
    Reading (List (String × Outline.Instance) × List Diagnostic)
  | [], instances => return (instances, [])
  | (name, node) :: rest, instances => do
    let (instances, warnings) ← readInstance strict scopes owner name node instances
    let (instances, more) ← readInstances strict scopes owner rest instances
    return (instances, warnings ++ more)

/-! ## Connections -/

def readWords (malformed : LoadError) : List Json → Reading (List String)
  | [] => return []
  | .string word :: rest => return word :: (← readWords malformed rest)
  | _ :: _ => throw malformed

def readWirePath (node : Json) (what : String) : Reading (List String) := do
  let malformed := LoadError.structural
    s!"wire path in {what} must be a non-empty array of strings, found {node.compact}"
  match node with
  | .array words =>
    match ← readWords malformed words with
    | root :: selectors => return root :: selectors
    | [] => throw malformed
  | _ => throw malformed

/-- The word that a path begins with. -/
def root (path : List String) : String := path.headD ""

def requireEnd (owner : String) (instances : List (String × Outline.Instance))
    (path : List String) : Reading Unit :=
  if root path = "" then throw (.ofGraph .emptyWirePath)
  else if root path = Design.selfWord ∨ root path ∈ Assoc.keys instances then return
  else throw (.ofGraph (.unknownInstance owner (root path)))

/-- Whether the connection is between these two terminals, in either order. -/
def links (c : Outline.Connection) (a b : List String) : Bool :=
  Definition.sameEnds (c.first, c.second) (a, b)

/-- The connections with a link in them. One that is there already gets more metadata. -/
def link (connections : List Outline.Connection) (a b : List String) (metadata : Metadata) :
    List Outline.Connection :=
  updateFirst (links · a b) (fun c => { c with metadata := c.metadata.extend metadata })
    ⟨a, b, Metadata.extend ∅ metadata⟩ connections

def readConnection (owner : String) (instances : List (String × Outline.Instance)) (node : Json)
    (connections : List Outline.Connection) : Reading (List Outline.Connection) := do
  let what := s!"connection in {owner}"
  let (first, second, metadata) ← connectionParts node what
  let first ← readWirePath first what
  let second ← readWirePath second what
  let metadata ← readMetadata metadata what
  requireEnd owner instances first
  requireEnd owner instances second
  return link connections first second metadata

def readConnections (owner : String) (instances : List (String × Outline.Instance)) :
    List Json → List Outline.Connection → Reading (List Outline.Connection)
  | [], connections => return connections
  | node :: rest, connections => do
    readConnections owner instances rest (← readConnection owner instances node connections)

/-! ## Definitions -/

def readInstancesOf (strict : Bool) (scopes : Scopes) (owner : String)
    (ms : List (String × Json)) :
    Reading (List (String × Outline.Instance) × List Diagnostic) :=
  match optional ms "instances" with
  | some node => do
    readInstances strict scopes owner (← members node s!"instances of {owner}") []
  | none => return ([], [])

def readConnectionsOf (owner : String) (instances : List (String × Outline.Instance))
    (ms : List (String × Json)) : Reading (List Outline.Connection) :=
  match optional ms "connections" with
  | some node => do
    readConnections owner instances (← items node s!"connections of {owner}") []
  | none => return []

def readDefinition (strict : Bool) (scopes : Scopes) (p : Pending) :
    Reading (Outline.Definition × List Diagnostic) := do
  let owner := p.scope ++ "." ++ p.name
  let ms ← members p.node s!"definition of {owner}"
  let (instances, warnings) ← readInstancesOf strict scopes owner ms
  let connections ← readConnectionsOf owner instances ms
  let implementations ← readMetadata? ms "implementations" s!"implementations of {owner}"
  let metadata ← readMetadata? ms "metadata" s!"definition of {owner}"
  return (⟨instances, connections, implementations, metadata⟩, warnings)

def readDefinitions (strict : Bool) (scopes : Scopes) :
    List Pending → Reading (List Outline.Definition × List Diagnostic)
  | [] => return ([], [])
  | p :: rest => do
    let (definition, warnings) ← readDefinition strict scopes p
    let (definitions, more) ← readDefinitions strict scopes rest
    return (definition :: definitions, warnings ++ more)

/-- The namespaces with a definition for a module. -/
def define (scope name : String) (definition : Outline.Definition) (scopes : Scopes) : Scopes :=
  Assoc.modify scope (fun ns =>
    { ns with modules := Assoc.modify name (fun m => { m with definition }) ns.modules }) scopes

def defineAll : List Pending → List Outline.Definition → Scopes → Scopes
  | p :: pending, x :: definitions, scopes =>
    defineAll pending definitions (define p.scope p.name x scopes)
  | _, _, scopes => scopes

/-! ## The document -/

def requireTop (scopes : Scopes) (scope name : String) : Reading Unit := do
  match ← requireSymbol scopes scope name with
  | .module _ => return
  | .generator _ => throw (.ofGraph (.wrongTargetKind (scope ++ "." ++ name) .module))

/-- What comes out of reading a document into namespaces: the outline, and the warnings. -/
def read (strict : Bool) (doc : Json) (scopes : Scopes) : Reading (Outline × List Diagnostic) := do
  let ms ← members doc "document"
  let (scope, name) ← symbolPair (← required ms "top" "document") (quoted "top")
  let namespaces ← members (← required ms "namespaces" "document") (quoted "namespaces")
  let (scopes, pending) ← declareNamespaces namespaces scopes
  let (definitions, warnings) ← readDefinitions strict scopes pending
  requireTop scopes scope name
  return (⟨(scope, name), defineAll pending definitions scopes⟩, warnings)

end Netlist.Plain
