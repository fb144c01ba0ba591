import SolidityTools.Proofs.Command.Frame
import SolidityTools.Proofs.Settings.RoundTrip

set_option autoImplicit false

/-! # Formatting in place and checking agree

Checking a file and formatting it in place compute the same text, and that text is its own new
layout (`laidOut_laidOut`). So a file that has been formatted in place passes the check, and
formatting it again changes nothing. Both runs must load the same settings. The write itself keeps
it so (`AsksWith.after_write`) unless its operand is the settings file or a file with variables.
-/

namespace SolidityTools

namespace Command

/-! ## The new layout -/

/-- A text that has been laid out is its own new layout. -/
theorem laidOut_laidOut (settings : EditorSettings) (optimized : Bool) (source : String) :
    laidOut settings optimized (laidOut settings optimized source)
      = laidOut settings optimized source := by
  cases optimized with
  | false =>
      have hlaid : Layout.LaidOut settings (Layout.formatText settings source.toList) :=
        Layout.laidOut_formatText source.toList
      have hformat := hlaid.formatText_eq
      simp [laidOut, SolidityTools.format, hformat]
  | true =>
      have hformat := (Layout.laidOut_optimizeText settings source.toList).formatText_eq
      have hloops := Layout.countedLoops_optimizeText settings source
      have hoptimize := Layout.optimizeText_eq_formatText (by rwa [hformat])
      simp [laidOut, optimize, hoptimize, hformat]

section OneRun

variable {settings : EditorSettings} {tree : FileTree} {file source : String} {optimized : Bool}

theorem ending_format_check (hread : tree.read? file = some source) :
    (format settings tree file false true optimized).ending
      = if laidOut settings optimized source = source then .success else .objection := by
  rw [format, hread]
  dsimp only
  rw [if_pos rfl]
  split
  · rfl
  · rfl

theorem tree_format_check : (format settings tree file false true optimized).tree = tree := by
  rcases tree_format_cases settings tree file false true optimized with h | ⟨_, _, hwrite, -⟩
  · exact h
  · cases hwrite

theorem format_write_of_eq (hread : tree.read? file = some source)
    (h : laidOut settings optimized source = source) :
    (format settings tree file true false optimized).ending = .success ∧
      (format settings tree file true false optimized).tree = tree := by
  rw [format, hread]
  simp [h, Outcome.print]

/-- Formatting in place fails where the operand is a folder. -/
theorem ending_format_write (hread : tree.read? file = some source) {place : Place}
    (hplace : tree.place? file = some place) (hfolder : tree.isFolder place = false) :
    (format settings tree file true false optimized).ending = .success := by
  by_cases h : laidOut settings optimized source = source
  · exact (format_write_of_eq hread h).1
  · rw [format, hread]
    simp [h, FileTree.write?, hplace, FileTree.writeAt?, hfolder, Outcome.print]

/-- After formatting in place the file holds its new layout. -/
theorem read?_format_write (hread : tree.read? file = some source)
    (hsuccess : (format settings tree file true false optimized).ending = .success) :
    (format settings tree file true false optimized).tree.read? file
      = some (laidOut settings optimized source) := by
  by_cases h : laidOut settings optimized source = source
  · rw [(format_write_of_eq hread h).2, h]
    exact hread
  · rw [format, hread] at hsuccess ⊢
    simp only [Bool.false_eq_true, if_false, if_true, if_neg h] at hsuccess ⊢
    cases hafter : tree.write? file (laidOut settings optimized source) with
    | none =>
        rw [hafter] at hsuccess
        cases hsuccess
    | some after => exact FileTree.read?_of_write? hafter

end OneRun

/-! ## Runs with settings -/

variable {environment : Variables.Bindings} {tree : FileTree} {arguments : List String}

theorem exists_run_eq_perform {action : Action} {path : Option String}
    (h : Asks environment tree arguments action path) :
    ∃ json, run environment tree arguments = perform tree path json action := by
  obtain ⟨json, hrequest⟩ := h
  exact ⟨json, by rw [run, hrequest]⟩

/-- The arguments ask for an action, and the settings for it can be loaded. -/
structure AsksWith (environment : Variables.Bindings) (tree : FileTree) (arguments : List String)
    (action : Action) (path : Option String) (settings : Settings) : Prop where
  asks : Asks environment tree arguments action path
  configured : (settingsFor tree path).1 = .ok settings

theorem AsksWith.settingsFor_eq {action : Action} {path : Option String} {settings : Settings}
    (h : AsksWith environment tree arguments action path settings) :
    settingsFor tree path = (.ok settings, (settingsFor tree path).2) :=
  Prod.ext h.configured rfl

theorem AsksWith.run_format {file : String} {write check optimized : Bool} {path : Option String}
    {settings : Settings}
    (h : AsksWith environment tree arguments (.format file write check optimized) path settings) :
    run environment tree arguments
      = format settings.editor (settingsFor tree path).2 file write check optimized := by
  obtain ⟨json, hrun⟩ := exists_run_eq_perform h.asks
  rw [hrun, perform, withSettings, h.settingsFor_eq]

/-! ## The settings afterwards -/

def settingsPlace? (tree : FileTree) : Option String → Option Place
  | some path => tree.place? path
  | none => some (settingsPlace tree)

theorem variablesFile?_congr {tree tree' : FileTree}
    (h : ∀ folder, tree'.file? (folder ++ [variablesName]) = tree.file? (folder ++ [variablesName]))
    (names : List String) : variablesFile? tree' names = variablesFile? tree names := by
  induction names with
  | nil => exact h []
  | cons name outer ih => rw [variablesFile?, variablesFile?, h, ih]

section Afterwards

variable {write : List String} {file : String} {optimized : Bool} {path : Option String}
  {settings : Settings} {place : Place}

/-- After formatting in place the tree differs from the one with the settings in the operand
only. -/
theorem AsksWith.tree_run_cases
    (h : AsksWith environment tree write (.format file true false optimized) path settings)
    (hplace : tree.place? file = some place) :
    (run environment tree write).tree = (settingsFor tree path).2 ∨
      ∃ text, (settingsFor tree path).2.isFile place = true ∧
        (run environment tree write).tree = (settingsFor tree path).2.setText place text := by
  rw [h.run_format]
  rcases tree_format_cases settings.editor (settingsFor tree path).2 file true false optimized with
    hsame | ⟨place', source, -, -, hplace', htext, -, -, hafter⟩
  · exact .inl hsame
  · rw [place?_settingsFor, hplace] at hplace'
    obtain rfl := Option.some.inj hplace'
    obtain ⟨bytes, hbytes, -⟩ := Option.bind_eq_some_iff.mp htext
    exact .inr ⟨_, by rw [FileTree.isFile, hbytes]; rfl, hafter⟩

theorem AsksWith.isFolder_run
    (h : AsksWith environment tree write (.format file true false optimized) path settings)
    (hplace : tree.place? file = some place) (folder : Place) :
    (run environment tree write).tree.isFolder folder = tree.isFolder folder := by
  refine Eq.trans ?_ (isFolder_settingsFor folder : (settingsFor tree path).2.isFolder folder = _)
  rcases h.tree_run_cases hplace with hafter | ⟨text, hfile, hafter⟩
  · rw [hafter]
  · rw [hafter]
    exact FileTree.isFolder_setText_eq _ _ _ (.inl hfile) folder

theorem AsksWith.place?_run
    (h : AsksWith environment tree write (.format file true false optimized) path settings)
    (hplace : tree.place? file = some place) (name : String) :
    (run environment tree write).tree.place? name = tree.place? name := by
  refine Eq.trans ?_ (place?_settingsFor name : (settingsFor tree path).2.place? name = _)
  rcases h.tree_run_cases hplace with hafter | ⟨text, hfile, hafter⟩
  · rw [hafter]
  · rw [hafter]
    exact FileTree.place?_setText_eq _ _ _ (.inl hfile) name

theorem AsksWith.file?_run
    (h : AsksWith environment tree write (.format file true false optimized) path settings)
    (hplace : tree.place? file = some place) {other : Place} (hne : other ≠ place) :
    (run environment tree write).tree.file? other = (settingsFor tree path).2.file? other := by
  rcases h.tree_run_cases hplace with hafter | ⟨text, hfile, hafter⟩
  · rw [hafter]
  · rw [hafter]
    exact FileTree.file?_setText_of_ne _ _ _ hne

theorem loadSettings_congr {after : FileTree} {place : Place}
    (h : after.textAt? place = tree.textAt? place) (name : String) :
    loadSettings after name (some place) = loadSettings tree name (some place) := by
  simp only [loadSettings, Option.bind_some, h]

theorem loadSettings_of_textAt? {name : String} {place : Place}
    (h : tree.textAt? place = some settings.write) :
    loadSettings tree name (some place) = .ok settings := by
  simp only [loadSettings, Option.bind_some, h, Settings.write, Settings.read?_writeSelected,
    Settings.overlaid_all]

theorem not_makesSettings_of_textAt? {text : String}
    (h : tree.textAt? (settingsPlace tree) = some text) : ¬MakesSettings tree path := by
  intro hmakes
  obtain ⟨bytes, hbytes, -⟩ := Option.bind_eq_some_iff.mp h
  rw [(FileTree.isFree_iff.mp hmakes.2).1] at hbytes
  cases hbytes

theorem exists_textAt?_of_loadSettings {name : String} {place? : Option Place}
    (h : loadSettings tree name place? = .ok settings) :
    ∃ place text, place? = some place ∧ tree.textAt? place = some text := by
  rw [loadSettings] at h
  cases htext : place?.bind tree.textAt? with
  | none =>
      rw [htext] at h
      cases h
  | some text =>
      obtain ⟨place, hplace, hread⟩ := Option.bind_eq_some_iff.mp htext
      exact ⟨place, text, hplace, hread⟩

/-- A file that can be read is the same afterwards, unless it is the operand. -/
theorem AsksWith.textAt?_run
    (h : AsksWith environment tree write (.format file true false optimized) path settings)
    (hplace : tree.place? file = some place) {other : Place} (hne : other ≠ place) {text : String}
    (htext : tree.textAt? other = some text) :
    (run environment tree write).tree.textAt? other = some text := by
  obtain ⟨bytes, hbytes, hdecode⟩ := Option.bind_eq_some_iff.mp htext
  rw [FileTree.textAt?, h.file?_run hplace hne, file?_settingsFor hbytes]
  exact hdecode

/-- The settings that a run loads are the same afterwards, unless the operand is the file that they
stand in. -/
theorem AsksWith.settingsFor_run {path' : Option String} {settings' : Settings}
    (h : AsksWith environment tree write (.format file true false optimized) path settings)
    (hplace : tree.place? file = some place) (hapart : settingsPlace? tree path' ≠ some place)
    (hconfigured : (settingsFor tree path').1 = .ok settings') :
    (settingsFor (run environment tree write).tree path').1 = .ok settings' := by
  cases path' with
  | some name =>
      obtain ⟨other, text, hother, htext⟩ := exists_textAt?_of_loadSettings hconfigured
      have hne : other ≠ place := fun heq => hapart (heq ▸ hother)
      have hafter := h.textAt?_run hplace hne htext
      rw [settingsFor, hother] at hconfigured
      rw [settingsFor, h.place?_run hplace, hother, loadSettings_congr (hafter.trans htext.symm)]
      exact hconfigured
  | none =>
      have hne : settingsPlace tree ≠ place := fun heq => hapart (congrArg some heq)
      have hhome : settingsPlace (run environment tree write).tree = settingsPlace tree := by
        rw [settingsPlace, (effect_run environment tree write).home_eq, settingsPlace]
      by_cases hmakes : MakesSettings tree none
      · rw [settingsFor_of_makesSettings hmakes] at hconfigured
        obtain rfl := Except.ok.inj hconfigured
        have hfile := h.file?_run hplace hne
        cases path with
        | none =>
            -- the run has made the settings file
            rw [settingsFor_of_makesSettings hmakes, FileTree.file?_setText] at hfile
            have htext := FileTree.textAt?_of_file? hfile
            rw [settingsFor_none (not_makesSettings_of_textAt? (hhome ▸ htext)), hhome]
            exact loadSettings_of_textAt? htext
        | some name =>
            have hnamed : ¬MakesSettings tree (some name) := fun h => Option.some_ne_none _ h.1
            rw [tree_settingsFor hnamed] at hfile
            have hfree : (run environment tree write).tree.isFree (settingsPlace tree) = true := by
              obtain ⟨hnone, hfolder⟩ := FileTree.isFree_iff.mp hmakes.2
              exact FileTree.isFree_iff.mpr
                ⟨hfile.trans hnone, (h.isFolder_run hplace _).trans hfolder⟩
            rw [settingsFor_of_makesSettings ⟨rfl, hhome ▸ hfree⟩]
      · rw [settingsFor_none hmakes] at hconfigured
        obtain ⟨other, text, hother, htext⟩ := exists_textAt?_of_loadSettings hconfigured
        obtain rfl := Option.some.inj hother
        have hafter := h.textAt?_run hplace hne htext
        rw [settingsFor_none (not_makesSettings_of_textAt? (hhome ▸ hafter)), hhome,
          loadSettings_congr (hafter.trans htext.symm)]
        exact hconfigured

/-- The variables are the same afterwards, unless the operand is a file with variables. -/
theorem AsksWith.namedSettings?_run
    (h : AsksWith environment tree write (.format file true false optimized) path settings)
    (hplace : tree.place? file = some place) (hname : place.getLast? ≠ some variablesName) :
    namedSettings? (run environment tree write).tree environment
      = namedSettings? tree environment := by
  have hfile : ∀ folder : Place,
      (run environment tree write).tree.file? (folder ++ [variablesName])
        = tree.file? (folder ++ [variablesName]) := by
    intro folder
    have hne : folder ++ [variablesName] ≠ place := by
      rintro rfl
      exact hname (by simp)
    have hne' : folder ++ [variablesName] ≠ settingsPlace tree := by
      intro heq
      have hlast := congrArg List.getLast? heq
      simp [settingsPlace, variablesName, settingsName] at hlast
    rw [h.file?_run hplace hne]
    by_cases hmakes : MakesSettings tree path
    · rw [settingsFor_of_makesSettings hmakes, FileTree.file?_setText_of_ne _ _ _ hne']
    · rw [tree_settingsFor hmakes]
  rw [namedSettings?, namedSettings?, bindingsFor, bindingsFor,
    (effect_run environment tree write).working_eq, variablesFile?_congr hfile]

/-- Formatting in place leaves what the arguments of other runs ask for as it is, and their
settings, unless its operand is the settings file or a file with variables. -/
theorem AsksWith.after_write {action : Action} {path' : Option String} {settings' : Settings}
    (h : AsksWith environment tree write (.format file true false optimized) path settings)
    (hplace : tree.place? file = some place) (hname : place.getLast? ≠ some variablesName)
    (hapart : settingsPlace? tree path' ≠ some place)
    (hasks : AsksWith environment tree arguments action path' settings') :
    AsksWith environment (run environment tree write).tree arguments action path' settings' := by
  obtain ⟨json, hrequest⟩ := hasks.asks
  refine ⟨⟨json, ?_⟩, h.settingsFor_run hplace hapart hasks.configured⟩
  rw [h.namedSettings?_run hplace hname]
  exact hrequest

end Afterwards

/-- What holds behind a run that formatted a file in place, whatever arguments the next run has. -/
structure Settled (environment : Variables.Bindings) (tree after : FileTree) (file : String)
    (optimized : Bool) (settings : Settings) (arguments : List String) (path : Option String) :
    Prop where
  /-- With the same settings the check succeeds. -/
  check_status : AsksWith environment after arguments (.format file false true optimized) path
    settings → (run environment after arguments).ending.status = 0
  /-- With the same settings the file is formatted in place again. -/
  write_success : AsksWith environment after arguments (.format file true false optimized) path
    settings → (run environment after arguments).ending = .success
  /-- That changes no file. -/
  write_keeps : AsksWith environment after arguments (.format file true false optimized) path
    settings → ∀ place bytes, after.file? place = some bytes →
      (run environment after arguments).tree.file? place = some bytes
  /-- The settings are the same, unless the operand is the settings file or holds variables. -/
  asks : ∀ place action, tree.place? file = some place → place.getLast? ≠ some variablesName →
    settingsPlace? tree path ≠ some place →
      AsksWith environment tree arguments action path settings →
        AsksWith environment after arguments action path settings

/-- A check of a file and a run that formats it in place say the same, where `checked` and `written`
are the outcomes of the two. -/
structure ChecksWrite (environment : Variables.Bindings) (tree : FileTree) (file : String)
    (optimized : Bool) (settings : Settings) (path : Option String) (checked written : Outcome) :
    Prop where
  /-- The check changes no file. -/
  keeps : ∀ place bytes, tree.file? place = some bytes → checked.tree.file? place = some bytes
  /-- The check writes nothing, unless there are no settings and it makes the file for them. -/
  tree_eq : ¬MakesSettings tree path → checked.tree = tree
  /-- The file is formatted in place, if the operand is not a folder at the same time. -/
  write_success : (∀ place, tree.place? file = some place → tree.isFolder place = false) →
    written.ending = .success
  /-- The check objects to exactly those files that are changed. -/
  objects_iff : written.ending = .success →
    (checked.ending.status = 1 ↔ written.tree.read? file ≠ tree.read? file)
  accepts_iff : written.ending = .success →
    (checked.ending.status = 0 ↔ written.tree.read? file = tree.read? file)
  settled : written.ending = .success → ∀ arguments path',
    Settled environment tree written.tree file optimized settings arguments path'

section Agreement

variable {write check : List String} {file source : String} {optimized : Bool}
  {path path' : Option String} {settings : Settings}

/-- After formatting in place the file is its own new layout. -/
theorem AsksWith.read?_run (hread : tree.read? file = some source)
    (hwrite : AsksWith environment tree write (.format file true false optimized) path settings)
    (hsuccess : (run environment tree write).ending = .success) :
    (run environment tree write).tree.read? file
      = some (laidOut settings.editor optimized source) := by
  rw [hwrite.run_format] at hsuccess ⊢
  exact read?_format_write (read?_settingsFor hread) hsuccess

/-- The check objects to a file that is not its own new layout. -/
theorem AsksWith.status_run_check (hread : tree.read? file = some source)
    (hcheck : AsksWith environment tree check (.format file false true optimized) path settings) :
    (run environment tree check).ending.status
      = if laidOut settings.editor optimized source = source then 0 else 1 := by
  rw [hcheck.run_format, ending_format_check (read?_settingsFor hread), apply_ite Ending.status]
  rfl

theorem AsksWith.tree_run_check
    (hcheck : AsksWith environment tree check (.format file false true optimized) path settings) :
    (run environment tree check).tree = (settingsFor tree path).2 := by
  rw [hcheck.run_format, tree_format_check]

theorem AsksWith.settled (hread : tree.read? file = some source)
    (hwrite : AsksWith environment tree write (.format file true false optimized) path settings)
    (hsuccess : (run environment tree write).ending = .success) (arguments : List String)
    (path' : Option String) : Settled environment tree (run environment tree write).tree file
      optimized settings arguments path' := by
  have hafter := hwrite.read?_run hread hsuccess
  have hsame := laidOut_laidOut settings.editor optimized source
  refine ⟨fun hagain => ?_, fun hagain => ?_, fun hagain place bytes hbytes => ?_, ?_⟩
  · rw [hagain.status_run_check hafter, if_pos hsame]
  · rw [hagain.run_format]
    exact (format_write_of_eq (read?_settingsFor hafter) hsame).1
  · rw [hagain.run_format, (format_write_of_eq (read?_settingsFor hafter) hsame).2]
    exact file?_settingsFor hbytes
  · intro place action hplace hname hapart hagain
    exact hwrite.after_write hplace hname hapart hagain

/-- **Checking agrees with formatting in place**, if a readable file is the operand of both and both
load the same settings. -/
theorem check_agrees_with_write (hread : tree.read? file = some source)
    (hwrite : AsksWith environment tree write (.format file true false optimized) path settings)
    (hcheck : AsksWith environment tree check (.format file false true optimized) path' settings) :
    ChecksWrite environment tree file optimized settings path' (run environment tree check)
      (run environment tree write) := by
  have hstatus := hcheck.status_run_check hread
  refine ⟨?_, ?_, ?_, fun hsuccess => ?_, fun hsuccess => ?_, hwrite.settled hread⟩
  · intro place bytes hbytes
    rw [hcheck.tree_run_check]
    exact file?_settingsFor hbytes
  · intro hmakes
    rw [hcheck.tree_run_check, tree_settingsFor hmakes]
  · intro hfolder
    obtain ⟨place, hplace, -⟩ := Option.bind_eq_some_iff.mp hread
    rw [hwrite.run_format]
    exact ending_format_write (read?_settingsFor hread) (by rw [place?_settingsFor, hplace])
      (by rw [isFolder_settingsFor, hfolder place hplace])
  · rw [hwrite.read?_run hread hsuccess, hread, hstatus]
    simp
  · rw [hwrite.read?_run hread hsuccess, hread, hstatus]
    simp

end Agreement

/-- A tree with a settings file and a file with a loop. -/
def loopTree : FileTree where
  folders := []
  files :=
    [(["c.toml"], "[editor]\nindent_width = 2\n".toUTF8),
      (["a.sol"], "for (uint i = 0; i < n; i++) \x7b\n   x;\n\x7d\n".toUTF8)]
  working := []
  home := []

/-- The settings in the tree with a loop. -/
def loopSettings : Settings := ⟨⟨4, 2, true⟩, .standard, .standard⟩

/-- A file with a loop fails the check, is formatted in place, and passes the check then. -/
theorem check_agrees_with_write_loop :
    let check := ["fmt", "--check", "--optimize", "--config", "c.toml", "a.sol"]
    let write := ["--config", "c.toml", "fmt", "--write", "--optimize", "a.sol"]
    loopTree.read? "a.sol" = some "for (uint i = 0; i < n; i++) \x7b\n   x;\n\x7d\n" ∧
      AsksWith [] loopTree write (.format "a.sol" true false true) (some "c.toml") loopSettings ∧
      AsksWith [] loopTree check (.format "a.sol" false true true) (some "c.toml") loopSettings ∧
      (run [] loopTree check).ending.status = 1 ∧ (run [] loopTree write).ending = .success ∧
      (run [] (run [] loopTree write).tree check).ending.status = 0 := by
  intro check write
  have hread : loopTree.read? "a.sol"
      = some "for (uint i = 0; i < n; i++) \x7b\n   x;\n\x7d\n" := by decide +kernel
  have hplace : loopTree.place? "a.sol" = some ["a.sol"] := by decide
  have hconfigured : (settingsFor loopTree (some "c.toml")).1 = .ok loopSettings := by
    have htext : (loopTree.place? "c.toml").bind loopTree.textAt?
        = some "[editor]\nindent_width = 2\n" := by decide +kernel
    have hsome : Settings.read? "[editor]\nindent_width = 2\n" = some loopSettings := by
      decide +kernel
    simp only [settingsFor, loadSettings, htext, hsome]
  have hwrite : AsksWith [] loopTree write (.format "a.sol" true false true) (some "c.toml")
      loopSettings := ⟨⟨false, by decide +kernel⟩, hconfigured⟩
  have hcheck : AsksWith [] loopTree check (.format "a.sol" false true true) (some "c.toml")
      loopSettings := ⟨⟨false, by decide +kernel⟩, hconfigured⟩
  have hagrees := check_agrees_with_write hread hwrite hcheck
  have hsuccess : (run [] loopTree write).ending = .success := by
    refine hagrees.write_success fun place h => ?_
    obtain rfl := Option.some.inj (hplace.symm.trans h)
    decide
  have hchanged : (run [] loopTree write).tree.read? "a.sol" ≠ loopTree.read? "a.sol" := by
    decide +kernel
  have hsettled := hagrees.settled hsuccess check (some "c.toml")
  refine ⟨hread, hwrite, hcheck, (hagrees.objects_iff hsuccess).mpr hchanged, hsuccess, ?_⟩
  exact hsettled.check_status (hsettled.asks ["a.sol"] _ hplace (by decide) (by decide) hcheck)

end Command

end SolidityTools
