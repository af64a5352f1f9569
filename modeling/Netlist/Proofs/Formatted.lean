-- Formatting a design file in place. Either nothing is written, or the file holds the
-- canonical text of its design, which formats to itself and passes the strict check. The
-- settings stay what they were, for the file that is written over cannot have given them.
import Netlist.CommandLine.Run
import Netlist.Proofs.NormalDepth
import Netlist.Proofs.Refused
import Netlist.Proofs.Reports
import Netlist.Proofs.Rewritten
import Netlist.Proofs.SavedText

namespace Netlist

/-! ## Canonical texts -/

namespace Document

variable {strict : Bool} {text path : String} {content : Except FileError String} {top : ModuleId}
  {warnings : List Diagnostic} {d : Design}

/-- A text that loads is that of a document, which is not nested too deeply. -/
theorem load_of_loadText (loaded : loadText strict text .empty = .ok (top, warnings) d) :
    ∃ doc, Json.parse text = .ok doc ∧ doc.WellFormed ∧ doc.depth ≤ Json.Reader.depthLimit ∧
      load strict doc .empty = .ok (top, warnings) d := by
  obtain ⟨doc, parsed, loaded⟩ := loadText_eq_ok_iff.1 loaded
  obtain ⟨wf, fits⟩ := Json.fits_of_parse parsed
  exact ⟨doc, parsed, wf, fits, loaded⟩

theorem text_of_loadContent
    (loaded : loadContent strict path content .empty = .ok (top, warnings) d) :
    ∃ text, content = .ok text ∧ loadText strict text .empty = .ok (top, warnings) d := by
  cases content with
  | error e => cases loaded
  | ok text => exact ⟨text, rfl, loaded⟩

theorem loadFile_of_loaded (loaded : loadContent strict path content .empty = .ok (top, warnings) d)
    (log : Diagnostic.Log) :
    loadFile strict path content log .empty = .ok (some top, log.emitAll warnings) d := by
  rw [loadFile, loaded]
  rfl

theorem loadFile_of_not_loaded
    (fails : ∀ answer d, loadContent strict path content .empty ≠ .ok answer d)
    (log : Diagnostic.Log) :
    ∃ log' d, loadFile strict path content log .empty = .ok (none, log') d := by
  rw [loadFile]
  cases h : loadContent strict path content .empty with
  | ok answer d => exact absurd h (fails answer d)
  | error e d =>
    cases e with
    | stale => exact absurd h (loadContent_ne_stale Design.sound_empty)
    | error e => exact ⟨_, d, rfl⟩

/-- What a load warns of are no errors. -/
theorem severity_of_load {doc : Json} (wf : doc.WellFormed)
    (loaded : load strict doc .empty = .ok (top, warnings) d) :
    ∀ w ∈ warnings, w.severity = .warning := by
  obtain ⟨-, o, -, -, rfl⟩ :=
    documentNode_of_loaded Design.sound_empty Design.outlineNamespaces_empty wf loaded
  exact fun w hw => (code_of_warning w hw).1

/-- What a text loads as is sound. -/
theorem sound_of_loadText (loaded : loadText strict text .empty = .ok (top, warnings) d) :
    d.Sound ∧ (d.modules.get? top).isSome := by
  obtain ⟨doc, -, wf, -, loaded⟩ := load_of_loadText loaded
  obtain ⟨sound, o, outline, -⟩ := documentNode_of_load wf loaded
  obtain ⟨symbol, -⟩ := Design.outline_eq_some_iff.1 outline
  obtain ⟨scope, name, -, place, -⟩ := Design.symbolText_eq_some_iff.1 symbol
  obtain ⟨m, hm, -⟩ := Option.map_eq_some_iff.1 place
  exact ⟨sound, Option.isSome_of_eq_some hm⟩

/-- A text that loads as a design gives no settings. -/
theorem ofText_ne_ok (loaded : loadText strict text .empty = .ok (top, warnings) d)
    (s : Settings) : Settings.ofText text ≠ .ok s := by
  obtain ⟨doc, parsed, wf, -, loaded⟩ := load_of_loadText loaded
  obtain ⟨-, o, -, ms, -, -, -, rfl, -⟩ := documentNode_of_load wf loaded
  obtain ⟨blanks, rest, begins, blank⟩ := Json.exists_blanks_of_parse parsed
  exact Settings.ofText_object begins blank s

/-- A design that was loaded from a text can be saved. -/
theorem exists_save (loaded : loadText strict text .empty = .ok (top, warnings) d) (indent : Nat) :
    ∃ saved, d.save? top indent = some saved := by
  obtain ⟨doc, -, wf, -, loaded⟩ := load_of_loadText loaded
  obtain ⟨document, -⟩ := loaded_document_normalizes wf loaded
  exact ⟨Design.documentText indent (normalForm doc), by rw [Design.save?, document]; rfl⟩

/-- The text that it is saved as loads without a warning, strictly or not, as a design that is
saved as the same text. -/
theorem saved_text_loads (loaded : loadText strict text .empty = .ok (top, warnings) d)
    (free : d.FloatFree) {indent : Nat} {saved : String} (hs : d.save? top indent = some saved)
    (strict' : Bool) : ∃ top' d', loadText strict' saved .empty = .ok (top', []) d' ∧
      d'.save? top' indent = some saved := by
  obtain ⟨doc, -, wf, fits, loaded⟩ := load_of_loadText loaded
  obtain ⟨document, again⟩ := loaded_document_normalizes wf loaded
  obtain ⟨top', d', loaded', -, document'⟩ := again strict'
  obtain ⟨sound, o, outline, said⟩ := documentNode_of_load wf loaded
  have tidy := sound.outline_sound outline (said.modulesOnly wf)
  have normal : normalForm doc = o.toJson := by
    rw [Design.document?, outline] at document
    exact (Option.some.inj document).symm
  rw [Design.save?, document] at hs
  obtain rfl := Option.some.inj hs
  refine ⟨top', d', ?_, by rw [Design.save?, document']; rfl⟩
  have shallow : (normalForm doc).depth ≤ Json.Reader.depthLimit := depth_normalForm (n := 118) fits
  rw [loadText_documentText strict' indent (normal ▸ tidy.wellFormed)
    (normal ▸ (free.outline outline).toJson), if_pos shallow]
  exact loaded'

end Document

/-! ## Commands on a tree of files -/

namespace CommandLine

open Document

/-- A command line, run on a tree of files: its result, and the tree that it leaves. -/
def runIn (t : FileTree) (words : List String) : Result × FileTree :=
  (run words : StateM FileTree Result).run t

/-- The settings that a command finds in a tree. -/
def settingsIn (t : FileTree) (o : Options) (file : String) : Except SettingsError Settings :=
  ((loadSettings o file : StateM FileTree _).run t).1

section

variable {α β : Type} {t u : FileTree} {path text : String}

theorem run_bind {x : StateM FileTree α} {f : α → StateM FileTree β} {a : α}
    (h : x.run t = (a, u)) : (x >>= f).run t = (f a).run u := by
  rw [StateT.run_bind, h]
  rfl

theorem get_run (t : FileTree) : (get : StateM FileTree FileTree).run t = (t, t) := rfl

theorem readText_run (t : FileTree) (path : String) :
    (FileAccess.readText path : StateM FileTree _).run t = (t.read path, t) := rfl

theorem isThere_run (t : FileTree) (path : String) :
    (FileAccess.isThere path : StateM FileTree _).run t = (t.has path, t) := rfl

theorem writeText_run (h : t.write path text = .ok u) :
    (FileAccess.writeText path text : StateM FileTree _).run t = (.ok (), u) := by
  change ((get : StateM FileTree FileTree) >>= _).run t = _
  rw [run_bind (get_run t), h]
  rfl

end

variable {o : Options} {file : String} {output : Option String} {indent : Option Nat}
  {t u : FileTree} {settings : Settings}

/-! ## Settings -/

theorem ofFolder_run (t : FileTree) (folder : String) :
    (Settings.ofFolder folder : StateM FileTree _).run t =
      (if t.has (Settings.joinPath folder Settings.fileName) then
        Settings.ofContent (t.read (Settings.joinPath folder Settings.fileName))
      else .ok .default, t) := by
  unfold Settings.ofFolder
  dsimp only
  rw [run_bind (isThere_run t _)]
  cases t.has (Settings.joinPath folder Settings.fileName) <;> rfl

theorem settingsIn_of_named {path : String} (h : o.config = some path) :
    settingsIn t o file = Settings.ofContent (t.read path) := by
  rw [settingsIn, loadSettings, h]
  rfl

theorem settingsIn_of_unnamed (h : o.config = none) : settingsIn t o file =
    if t.has (Settings.joinPath (folderOf file) Settings.fileName) then
      Settings.ofContent (t.read (Settings.joinPath (folderOf file) Settings.fileName))
    else .ok .default := by
  rw [settingsIn, loadSettings, h]
  dsimp only
  rw [ofFolder_run]

/-- Finding the settings changes nothing. -/
theorem loadSettings_run (t : FileTree) (o : Options) (file : String) :
    (loadSettings o file : StateM FileTree _).run t = (settingsIn t o file, t) := by
  rw [settingsIn, loadSettings]
  cases o.config with
  | some path => rfl
  | none =>
    dsimp only
    rw [ofFolder_run]

section

variable {place : List String} {old : ByteArray} (there : t.node? place = some (.file old))
  (new : ByteArray) (silent : ∀ s, Settings.ofContent (t.textAt place) ≠ .ok s)

include there silent

theorem ofContent_rewritten {path : String} (h : Settings.ofContent (t.read path) = .ok settings) :
    Settings.ofContent ((t.put place (.file new)).read path) = .ok settings := by
  rw [FileTree.read_rewritten there new]
  · exact h
  · intro here
    rw [FileTree.read, here] at h
    exact silent settings h

/-- A file that gave no settings may be written over, and the settings are the same. -/
theorem settingsIn_rewritten (h : settingsIn t o file = .ok settings) :
    settingsIn (t.put place (.file new)) o file = .ok settings := by
  cases hc : o.config with
  | some path =>
    rw [settingsIn_of_named hc] at h ⊢
    exact ofContent_rewritten there new silent h
  | none =>
    rw [settingsIn_of_unnamed hc] at h ⊢
    rw [FileTree.has_rewritten there]
    split at h
    · rename_i found
      rw [if_pos found]
      exact ofContent_rewritten there new silent h
    · rename_i missing
      rw [if_neg missing]
      exact h

end

/-! ## Formatting -/

/-- What formatting needs: settings, an indentation that is allowed, and a design that loads. -/
def Formats (t : FileTree) (o : Options) (file : String) (indent : Option Nat) (n : Nat)
    (top : ModuleId) (warnings : List Diagnostic) (d : Design) : Prop :=
  ∃ settings, settingsIn t o file = .ok settings ∧ effectiveIndent settings indent = .ok n ∧
    loadContent settings.strict file (t.read file) .empty = .ok (top, warnings) d

/-- The line that tells of a file that was formatted in place. -/
def formattedLine (o : Options) (file : String) : String :=
  if o.quiet then "" else s!"   Formatted {file} -> {file}\n"

/-- Without all that, nothing is written. -/
theorem fmt_of_not_formats (h : ∀ n top warnings d, ¬ Formats t o file indent n top warnings d) :
    ∃ r, (fmt o file output indent : StateM FileTree Result).run t = (r, t) ∧ r.exit = 1 := by
  unfold fmt
  rw [run_bind (loadSettings_run t o file)]
  cases hs : settingsIn t o file with
  | error e => exact ⟨_, rfl, rfl⟩
  | ok settings =>
    dsimp only
    cases hn : effectiveIndent settings indent with
    | error reason => exact ⟨_, rfl, rfl⟩
    | ok n =>
      dsimp only
      have fails : ∀ answer d,
          loadContent settings.strict file (t.read file) .empty ≠ .ok answer d :=
        fun answer d loaded => h n answer.1 answer.2 d ⟨settings, hs, hn, loaded⟩
      obtain ⟨log, d, refused⟩ := loadFile_of_not_loaded fails .empty
      have nothing : canonicalText o settings.strict n file (t.read file) =
          .error ⟨1, "", reportText o log.pending⟩ := by
        rw [canonicalText, refused]
      rw [run_bind (readText_run t file), nothing]
      exact ⟨_, rfl, rfl⟩

/-- Warnings are no errors. -/
theorem hasErrors_emitAll {ws : List Diagnostic} (h : ∀ w ∈ ws, w.severity = .warning)
    {log : Diagnostic.Log} (clean : log.hasErrors = false) :
    (log.emitAll ws).hasErrors = false := by
  induction ws generalizing log with
  | nil => exact clean
  | cons w rest ih =>
    obtain ⟨hw, hrest⟩ := List.forall_mem_cons.1 h
    refine ih hrest ?_
    rw [Diagnostic.Log.emit, hw]
    exact clean

/-- With it, the file is written over. -/
theorem fmt_of_formats {n : Nat} {top : ModuleId} {warnings : List Diagnostic} {d : Design}
    (h : Formats t o file indent n top warnings d) (inPlace : output.getD file = file) :
    ∃ text place old, d.save? top n = some text ∧ t.locate file = .ok place ∧
      t.node? place = some (.file old) ∧
      (fmt o file output indent : StateM FileTree Result).run t =
        (⟨0, "", reportText o warnings ++ formattedLine o file⟩,
          t.put place (.file text.toUTF8)) := by
  obtain ⟨settings, hs, hn, loaded⟩ := h
  obtain ⟨content, readable, loadedText⟩ := text_of_loadContent loaded
  obtain ⟨text, saved⟩ := exists_save loadedText n
  obtain ⟨place, old, located, there, written⟩ := FileTree.write_of_read readable text
  refine ⟨text, place, old, saved, located, there, ?_⟩
  have clean : (Diagnostic.Log.empty.emitAll warnings).hasErrors = false := by
    obtain ⟨doc, -, wf, -, loaded⟩ := load_of_loadText loadedText
    exact hasErrors_emitAll (severity_of_load wf loaded) rfl
  have canonical : canonicalText o settings.strict n file (t.read file) =
      .ok (text, Diagnostic.Log.empty.emitAll warnings) := by
    rw [canonicalText, loadFile_of_loaded loaded]
    simp only [saved]
  unfold fmt
  rw [run_bind (loadSettings_run t o file), hs]
  dsimp only
  rw [hn]
  dsimp only
  rw [run_bind (readText_run t file), canonical]
  dsimp only
  rw [inPlace, run_bind (writeText_run written)]
  change ((⟨if (Diagnostic.Log.empty.emitAll warnings).hasErrors then 1 else 0, "",
    reportText o (Diagnostic.Log.empty.emitAll warnings).pending ++
      if (true && !o.quiet) = true then s!"   Formatted {file} -> {file}\n" else ""⟩ : Result),
    t.put place (.file text.toUTF8)) = _
  rw [clean, Diagnostic.Log.pending_emitAll, formattedLine]
  cases o.quiet <;> rfl

/-! ## Checking -/

theorem summary?_isSome {d : Design} (sound : d.Sound) {top : ModuleId}
    (live : (d.modules.get? top).isSome) : (summary? d top).isSome := by
  obtain ⟨m, hm⟩ := Option.isSome_iff_exists.1 live
  obtain ⟨scope, name, symbol, -⟩ := sound.symbolText_module hm
  obtain ⟨type, htype⟩ := sound.exists_typeTree (sound.moduleSound hm).type
  have named := Design.qualifiedName_of_symbolText symbol
  simp only [summary?, named, hm, htype, Option.bind_eq_bind, Option.bind_some, Option.pure_def,
    Option.isSome_some]

theorem namespaceLines?_isSome {d : Design} (sound : d.Sound) : (namespaceLines? d).isSome := by
  have named : ∀ ns ∈ d.namespaces.toList, ∃ line, (do
      let name ← d.text? ns.name
      return s!"       {name}: {ns.modules.size} module(s), {ns.generators.size} generator(s)\n") =
        some line := by
    intro ns hns
    obtain ⟨id, there⟩ := Table.mem_toList_iff.1 hns
    obtain ⟨name, hname⟩ := Option.isSome_iff_exists.1 (sound.namespaceSound there).name
    rw [hname]
    exact ⟨_, rfl⟩
  obtain ⟨lines, hlines⟩ := exists_forall₂ named
  rw [namespaceLines?, mapM_eq_some_iff.2 hlines]
  rfl

/-- A design that loads without a warning passes the check. -/
theorem checkContent_of_loaded {strict : Bool} (format : ReportFormat) {text : String}
    {top : ModuleId} {d : Design}
    (loaded : loadText strict text .empty = .ok (top, []) d) :
    (checkContent o strict format file (.ok text)).exit = 0 := by
  obtain ⟨sound, live⟩ := sound_of_loadText loaded
  obtain ⟨line, hline⟩ := Option.isSome_iff_exists.1 (summary?_isSome sound live)
  obtain ⟨lines, hlines⟩ := Option.isSome_iff_exists.1 (namespaceLines?_isSome sound)
  have loaded : loadContent strict file (.ok text) .empty = .ok (top, []) d := loaded
  unfold checkContent
  rw [loadFile_of_loaded loaded]
  dsimp only
  rw [hline, hlines]
  cases format <;> cases o.quiet <;> cases o.verbose <;> rfl

theorem check_run {format : ReportFormat} {strict : Bool} (h : settingsIn t o file = .ok settings) :
    (check o file format strict : StateM FileTree Result).run t =
      (checkContent o (settings.strict || strict) format file (t.read file), t) := by
  unfold check
  rw [run_bind (loadSettings_run t o file), h]
  rfl

/-! ## Formatting in place -/

section

variable {words : List String}

theorem runIn_fmt (asked : parse words = .ok (.run o (.fmt file output indent))) (t : FileTree) :
    runIn t words = (fmt o file output indent : StateM FileTree Result).run t := by
  rw [runIn, run, asked]

theorem runIn_check {format : ReportFormat} {strict : Bool}
    (asked : parse words = .ok (.run o (.check file format strict))) (t : FileTree) :
    runIn t words = (check o file format strict : StateM FileTree Result).run t := by
  rw [runIn, run, asked]

end

section

variable {n : Nat} {top : ModuleId} {warnings : List Diagnostic} {d : Design}
  (h : Formats t o file indent n top warnings d) (free : d.FloatFree) {text : String}
  (saved : d.save? top n = some text) {place : List String} {old : ByteArray}
  (located : t.locate file = .ok place) (there : t.node? place = some (.file old))

include h free saved located there

/-- After formatting, the settings are the same and the text loads without a warning, strictly or
not, as a design with the same text. -/
theorem formats_again :
    ∃ settings, settingsIn (t.put place (.file text.toUTF8)) o file = .ok settings ∧
      effectiveIndent settings indent = .ok n ∧
      ∀ strict, ∃ top' d', loadText strict text .empty = .ok (top', []) d' ∧
        d'.save? top' n = some text := by
  obtain ⟨settings, hs, hn, loaded⟩ := h
  obtain ⟨content, readable, loaded⟩ := text_of_loadContent loaded
  refine ⟨settings, settingsIn_rewritten there _ (fun s => ?_) hs, hn,
    saved_text_loads loaded free saved⟩
  rw [FileTree.read, located] at readable
  change t.textAt place = .ok content at readable
  rw [readable]
  exact ofText_ne_ok loaded s

/-- So formatting the file again writes the same text, and has nothing to report. -/
theorem fmt_again (inPlace : output.getD file = file) :
    (fmt o file output indent : StateM FileTree Result).run (t.put place (.file text.toUTF8)) =
      (⟨0, "", formattedLine o file⟩, t.put place (.file text.toUTF8)) := by
  obtain ⟨settings, hs, hn, reloads⟩ := formats_again h free saved located there
  obtain ⟨top', d', loaded, saved'⟩ := reloads settings.strict
  have readable := FileTree.read_rewritten_self there located text
  have again : Formats (t.put place (.file text.toUTF8)) o file indent n top' [] d' :=
    ⟨settings, hs, hn, by rw [readable]; exact loaded⟩
  obtain ⟨text', place', _, saved'', located', -, ran⟩ := fmt_of_formats again inPlace
  cases saved'.symm.trans saved''
  rw [FileTree.locate_rewritten there, located] at located'
  cases located'
  rw [ran, FileTree.put_put]
  rfl

/-- And the strict check finds nothing wrong. -/
theorem check_again {o' : Options} (same : o'.config = o.config) (format : ReportFormat) :
    ∃ r, (check o' file format true : StateM FileTree Result).run
      (t.put place (.file text.toUTF8)) = (r, t.put place (.file text.toUTF8)) ∧ r.exit = 0 := by
  obtain ⟨settings, hs, -, reloads⟩ := formats_again h free saved located there
  obtain ⟨top', d', loaded, -⟩ := reloads (settings.strict || true)
  have hs' : settingsIn (t.put place (.file text.toUTF8)) o' file = .ok settings := by
    rw [← hs, settingsIn, settingsIn, loadSettings, loadSettings, same]
  rw [check_run hs', FileTree.read_rewritten_self there located]
  exact ⟨_, rfl, checkContent_of_loaded format loaded⟩

end

/-- A name alone leads to a place in the working folder. -/
theorem locate_name {name : String} (whole : name.splitOn "/" = [name])
    (unrooted : name.startsWith "/" = false) (nul : '\x00' ∉ name.toList)
    (short : name.utf8ByteSize ≤ FileTree.nameLimit) (other : name ∉ ["", ".", ".."]) :
    t.locate name = .ok (t.home ++ [name]) := by
  simp only [List.mem_cons, List.not_mem_nil, or_false, not_or] at other
  obtain ⟨notEmpty, notDot, notDots⟩ := other
  have fits : ¬ FileTree.pathLimit < name.utf8ByteSize := by
    unfold FileTree.nameLimit at short
    unfold FileTree.pathLimit
    omega
  have route : t.route name = .ok (t.home, [name]) := by
    rw [FileTree.route, String.contains_char_eq, whole, unrooted, if_neg (by simpa using notEmpty),
      if_neg (by simpa using nul), if_neg fits]
    rfl
  have folder : t.node? t.home = some .folder := by simp [FileTree.node?]
  rw [FileTree.locate, route]
  change t.walk t.home [name] = _
  rw [FileTree.walk, folder]
  simp only [notEmpty, notDot, notDots, or_self, if_false, Nat.not_lt.2 short, FileTree.walk]

/-- A design with an argument that nothing asks for, and a definition that is null. -/
def documentOfPair : Json :=
  .object [
    ("namespaces", .object [("lib", .object [("modules", .object [
      ("pair", .object [("type", .string "Any"), ("def", .object [("instances", .object [
        ("low", .object [
          ("config", .object [("width", .int 4)]),
          ("instref", .array [.string "lib", .string "bit"])])])])]),
      ("bit", .object [("def", .null), ("type", .string "BitIn")])])])]),
    ("top", .array [.string "lib", .string "pair"])]

/-- The design in a file, and settings in another one. -/
def treeWithDesign : FileTree :=
  ⟨[], [(["top.json"], .file documentOfPair.compact.toUTF8),
    (["weft.toml"], .file "[save]\nindent = 4\n".toUTF8)]⟩

/-- Its files can be read. -/
theorem read_treeWithDesign :
    treeWithDesign.read "top.json" = .ok documentOfPair.compact ∧
      treeWithDesign.read "weft.toml" = .ok "[save]\nindent = 4\n" := by
  have whole : "top.json".splitOn "/" = ["top.json"] ∧ "weft.toml".splitOn "/" = ["weft.toml"] := by
    constructor
    all_goals
      -- The pieces of a text are found by a recursion that only its equation opens.
      rw [String.splitOn, if_neg (by decide)]
      repeat rw [String.splitOnAux, if_neg (by decide +kernel), if_neg (by decide +kernel)]
      rw [String.splitOnAux, if_pos (by decide +kernel)]
      decide +kernel
  have design : treeWithDesign.locate "top.json" = .ok ["top.json"] :=
    locate_name whole.1 (by decide +kernel) (by decide +kernel) (by decide +kernel)
      (by decide +kernel)
  have settings : treeWithDesign.locate "weft.toml" = .ok ["weft.toml"] :=
    locate_name whole.2 (by decide +kernel) (by decide +kernel) (by decide +kernel)
      (by decide +kernel)
  exact ⟨FileTree.read_of_file design rfl, FileTree.read_of_file settings rfl⟩

end CommandLine

end Netlist
