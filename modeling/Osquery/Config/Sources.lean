import Osquery.Config.Pack

/-!
# Configuration sources

Every source of the configuration is a JSON document. An update of a source
removes the packs and the watched files that the source contributed before,
parses the new document, adds its packs and hands the document, and the object
of every pack that executes, to the config parsers. A digest of the last text
of a source makes an unchanged text a no-op.

## Implementation notes

Two parsers reach the modelled state: `file_paths` fills the watched files, and
`options` sets command line flags, of which the pack delimiter and the default
interval are read here. The parsers run in the order of their names. Options are
merged over all updates and none is taken back. The JSON library, the digest,
the config plugin, the discovery queries, the SQL engine and the file system
are fields of `Environment`.
-/

namespace Osquery.Config

open Foundation.JsonText Foundation.Numeral Core.Conversions Core.Rows

/-! ### State -/

/-- The flags that the configuration reads. -/
structure Flags where
  pack_delimiter : String
  schedule_default_interval : UInt64
  deriving DecidableEq

/-- Globbing paths under named categories. -/
abbrev FileCategories := Std.ExtTreeMap String (List String)

abbrev Files := Std.ExtTreeMap String FileCategories

/-- The configuration instance and the flags of the process. -/
structure ConfigState where
  schedule : PackList
  files : Files
  hash : Std.ExtTreeMap String String
  options : List (String × Json)
  flags : Flags

/-- What the configuration calls but does not define. -/
structure Environment where
  host : Host
  isExternal : Bool
  digest : String → String
  parse : String → Option Json
  write : Json → String
  genPack : String → String → Option String
  discovered : List String → Bool
  query : String → Option (List Row)
  replaceGlobWildcards : String → String
  uint64Flag : String → Option UInt64

def ConfigState.reset (flags : Flags) : ConfigState :=
  ⟨PackList.empty, ∅, ∅, [], flags⟩

/-! ### Watched files -/

def addFile (source category path : String) (files : Files) : Files :=
  let categories := files.getD source ∅
  files.insert source (categories.insert category (categories.getD category [] ++ [path]))

/-- The entry of the source stays, without categories. -/
def removeFiles (source : String) (files : Files) : Files :=
  if source ∈ files then files.insert source ∅ else files

/-- What a source watches; an entry without categories is as good as none. -/
def watched (files : Files) (source : String) : FileCategories := files.getD source ∅

/-! ### Parsers -/

section Parsers

variable (env : Environment)

/-- A parser receives those of its keys that are arrays or objects. -/
def parserMember? (key : String) (obj : Json) : Option Json :=
  match member? key obj with
  | some (.arr items) => some (.arr items)
  | some (.obj members) => some (.obj members)
  | _ => none

/-- The paths under a category of `file_paths`; an empty pattern is skipped. -/
def categoryPaths (category : String × Json) : List (String × String) :=
  (getArray category.2).filterMap fun path =>
    if getString path = "" then none
    else some (cstr category.1, env.replaceGlobWildcards (getString path))

/-- The `path` columns that the queries of a category of `file_paths_query` return. -/
def categoryQueries (category : String × Json) : List (String × String) :=
  (getArray category.2).flatMap fun query =>
    match env.query (getString query) with
    | none => []
    | some rows => rows.filterMap fun row =>
        row["path"]?.map fun path => (cstr category.1, env.replaceGlobWildcards path)

/-- The files that a configuration object names, with their categories. -/
def listedFiles (obj : Json) : List (String × String) :=
  (((parserMember? "file_paths" obj).map getObject).getD []).flatMap (categoryPaths env) ++
    (((parserMember? "file_paths_query" obj).map getObject).getD []).flatMap
      (categoryQueries env)

/-- The update of the `file_paths` parser. -/
def filePathsUpdate (source : String) (obj : Json) (files : Files) : Files :=
  if (parserMember? "file_paths" obj).isNone && (parserMember? "file_paths_query" obj).isNone then
    removeFiles source files
  else
    (listedFiles env obj).foldl (fun files f => addFile source f.1 f.2 files)
      (removeFiles source files)

/-- The text that an option sets a flag to. -/
def optionText : Json → String
  | .str s => cstr s
  | .bool b => if b then "true" else "false"
  | .int n =>
      if -2147483648 ≤ n ∧ n < 2147483648 then toString n else toText (UInt64.ofInt n).toNat
  | .real m e => toText (env.host.doubleBits m e).toNat
  | .null => ""
  | v => env.write v

/-- The options of the source replace those of the same names. -/
def mergeObject (target source : List (String × Json)) : List (String × Json) :=
  source.foldl (fun target m => target.eraseP (fun t => t.1 = m.1) ++ [m]) target

def updateValue (name value : String) (flags : Flags) : Flags :=
  if name = "pack_delimiter" then { flags with pack_delimiter := value }
  else if name = "schedule_default_interval" then
    match env.uint64Flag value with
    | none => flags
    | some n => { flags with schedule_default_interval := n }
  else flags

/-- One of the merged options. -/
def applyOption (flags : Flags) (option : String × Json) : Flags :=
  if optionText env option.2 = "" ∨ cstr option.1 = "" then flags
  else updateValue env (cstr option.1) (optionText env option.2) flags

/-- The update of the `options` parser. -/
def optionsUpdate (obj : Json) (st : ConfigState) : ConfigState :=
  match parserMember? "options" obj with
  | none => st
  | some v =>
      let options := mergeObject st.options (getObject v)
      { st with options, flags := options.foldl (applyOption env) st.flags }

def applyParsers (source : String) (obj : Json) (st : ConfigState) : ConfigState :=
  optionsUpdate env obj { st with files := filePathsUpdate env source obj st.files }

end Parsers

/-! ### Packs of a source -/

/-- The entry of the watched files that belongs to a pack. -/
def packKey (flags : Flags) (source name : String) : String :=
  source ++ flags.pack_delimiter ++ name

/-- A pack that cannot be built is skipped. -/
def addSinglePack (env : Environment) (source : String) (st : ConfigState)
    (entry : String × Json) : ConfigState :=
  match initializePack env.host st.flags.schedule_default_interval entry.1 source entry.2 with
  | none => st
  | some pack =>
      let key := packKey st.flags source entry.1
      let added :=
        { st with
          schedule := st.schedule.add pack
          files := if st.schedule.packs.any (isRemoved entry.1 source) then
            removeFiles key st.files else st.files }
      if pack.shouldPackExecute env.discovered then applyParsers env key entry.2 added
      else added

/-- The packs of an object; the name `*` stands for a multi-pack. -/
def packEntries (name : String) (obj : Json) : List (String × Json) :=
  if name = "*" then (getObject obj).map fun pack => (cstr pack.1, pack.2) else [(name, obj)]

def addPack (env : Environment) (source : String) (st : ConfigState) (name : String)
    (obj : Json) : ConfigState :=
  (packEntries name obj).foldl (addSinglePack env source) st

/-- The lines of a configuration text without comments, behind joined lines. -/
def joinLines : List Char → List Char
  | '\\' :: '\n' :: rest => joinLines rest
  | c :: rest => c :: joinLines rest
  | [] => []

def isComment (line : String) : Bool :=
  match line.toList with
  | '#' :: _ => true
  | '/' :: '/' :: _ => true
  | _ => false

def stripConfigComments (json : String) : String :=
  (((split (String.ofList (joinLines json.toList)) "\n").map Foundation.Separated.trim).filter
    fun line => !isComment line).foldl (fun sink line => sink ++ line ++ "\n") ""

/-- The document of a text, if it is an object. -/
def parseObject (env : Environment) (json : String) : Option Json :=
  match env.parse (cstr (stripConfigComments json)) with
  | some (.obj members) => some (.obj members)
  | _ => none

/-- A pack that is a text is a resource of the config plugin. -/
def genPack (env : Environment) (source : String) (st : ConfigState) (name target : String) :
    ConfigState :=
  match env.genPack name target with
  | none => st
  | some clone =>
      if clone = "" then st
      else
        match parseObject env clone with
        | none => st
        | some doc => addPack env source st name doc

/-! ### Updates of a source -/

inductive UpdateStatus
  | ok
  | malformed
  | unchanged
  deriving DecidableEq

/-- The packs of the source and their files are removed, then its own files. -/
def removeSource (source : String) (st : ConfigState) : ConfigState :=
  { st with
    schedule := st.schedule.removeAll source
    files := removeFiles source
      ((st.schedule.packs.filter fun p => p.source = source).foldl
        (fun files p => removeFiles (packKey st.flags source p.name) files) st.files) }

/-- The `schedule` of a document is the pack `main`. -/
def addSchedule (env : Environment) (source : String) (doc : Json) (st : ConfigState) :
    ConfigState :=
  match member? "schedule" doc with
  | some (.obj queries) => addPack env source st "main" (.obj [("queries", .obj queries)])
  | _ => st

/-- One member of `packs`. -/
def addPackMember (env : Environment) (source : String) (st : ConfigState)
    (pack : String × Json) : ConfigState :=
  match pack.2 with
  | .obj members => addPack env source st (cstr pack.1) (.obj members)
  | .str target => genPack env source st (cstr pack.1) (cstr target)
  | _ => st

def addPacks (env : Environment) (source : String) (doc : Json) (st : ConfigState) :
    ConfigState :=
  (((member? "packs" doc).map getObject).getD []).foldl (addPackMember env source) st

/-- The document of a source is added to a configuration without the source. -/
def addDocument (env : Environment) (source : String) (doc : Json) (st : ConfigState) :
    ConfigState :=
  applyParsers env source doc
    (if env.isExternal then st else addPacks env source doc (addSchedule env source doc st))

/-- The digest is recorded before the text is parsed. -/
def updateSource (env : Environment) (source json : String) (st : ConfigState) :
    UpdateStatus × ConfigState :=
  if st.hash.getD source "" = env.digest json then (.unchanged, st)
  else
    let removed := removeSource source
      { st with hash := st.hash.insert source (env.digest json) }
    match parseObject env json with
    | none => (.malformed, removed)
    | some doc => (.ok, addDocument env source doc removed)

/-! ### The entries of a document -/

/-- The packs that a document adds, in order. -/
def scheduleEntries (doc : Json) : List (String × Json) :=
  match member? "schedule" doc with
  | some (.obj queries) => packEntries "main" (.obj [("queries", .obj queries)])
  | _ => []

def memberEntries (env : Environment) (pack : String × Json) : List (String × Json) :=
  match pack.2 with
  | .obj members => packEntries (cstr pack.1) (.obj members)
  | .str target =>
      match env.genPack (cstr pack.1) (cstr target) with
      | none => []
      | some clone =>
          if clone = "" then []
          else ((parseObject env clone).map (packEntries (cstr pack.1))).getD []
  | _ => []

def documentEntries (env : Environment) (doc : Json) : List (String × Json) :=
  if env.isExternal then []
  else scheduleEntries doc ++
    (((member? "packs" doc).map getObject).getD []).flatMap (memberEntries env)

theorem addSchedule_eq (env : Environment) (source : String) (doc : Json) (st : ConfigState) :
    addSchedule env source doc st =
      (scheduleEntries doc).foldl (addSinglePack env source) st := by
  rw [addSchedule, scheduleEntries]
  split <;> rfl

theorem addPackMember_eq (env : Environment) (source : String) (st : ConfigState)
    (pack : String × Json) :
    addPackMember env source st pack =
      (memberEntries env pack).foldl (addSinglePack env source) st := by
  rw [addPackMember, memberEntries]
  split
  · rfl
  · rw [genPack]
    split
    · rfl
    · split
      · rfl
      · split <;> rename_i h <;> rw [h] <;> rfl
  · rfl

theorem addPacks_eq (env : Environment) (source : String) (doc : Json) (st : ConfigState) :
    addPacks env source doc st =
      ((((member? "packs" doc).map getObject).getD []).flatMap (memberEntries env)).foldl
        (addSinglePack env source) st := by
  have hmember : addPackMember env source = fun st pack =>
      (memberEntries env pack).foldl (addSinglePack env source) st := by
    funext st pack
    exact addPackMember_eq env source st pack
  rw [addPacks, List.foldl_flatMap, hmember]

/-- A document is added pack by pack, and then handed to the parsers itself. -/
theorem addDocument_eq (env : Environment) (source : String) (doc : Json) (st : ConfigState) :
    addDocument env source doc st = applyParsers env source doc
      ((documentEntries env doc).foldl (addSinglePack env source) st) := by
  rw [addDocument, documentEntries]
  split
  · rfl
  · rw [addPacks_eq, addSchedule_eq, List.foldl_append]

end Osquery.Config
