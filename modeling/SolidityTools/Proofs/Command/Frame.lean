import SolidityTools.Command.Run
import SolidityTools.Proofs.Command.FileTree
import SolidityTools.Proofs.Layout.Fixpoint

set_option autoImplicit false

/-! # What a run leaves alone

A run changes the tree of files in two ways only. It may make one file that was not there: the
settings file in the user's home, on the first use of a command that needs settings (`Makes`), or
the file that a template is written to. And formatting in place puts the new text into its operand
(`Rewrites`). `Effect` is the relation between the tree before a run and the trees that these
changes lead to; every run ends in one of them (`effect_run`), whether it succeeds or not, and what
each place holds afterwards is read off the relation (`Effect.file?_cases`).

What is logged is no part of the tree.
-/

namespace SolidityTools

def Action.needsSettings : Action → Bool
  | .lint _ | .gas _ | .format .. => true
  | _ => false

def FileTree.isFree (tree : FileTree) (place : Place) : Bool :=
  !(tree.isFile place || tree.isFolder place)

theorem FileTree.isFree_iff {tree : FileTree} {place : Place} :
    tree.isFree place = true ↔ tree.file? place = none ∧ tree.isFolder place = false := by
  simp [isFree, isFile]

namespace Command

/-! ## Settings -/

/-- The place of the settings file in the user's home. -/
def settingsPlace (tree : FileTree) : Place := tree.home ++ [settingsName]

/-- Whether the settings file is made: none is named, and there is none in the user's home. -/
def MakesSettings (tree : FileTree) (path : Option String) : Prop :=
  path = none ∧ tree.isFree (settingsPlace tree) = true

section Settings

variable {tree : FileTree} {path : Option String}

theorem settingsFor_of_makesSettings (h : MakesSettings tree path) :
    settingsFor tree path
      = (.ok .standard, tree.setText (settingsPlace tree) Settings.standard.write) := by
  obtain ⟨rfl, hfree⟩ := h
  rw [FileTree.isFree, Bool.not_eq_true'] at hfree
  rw [settingsFor]
  exact if_neg (by rw [← settingsPlace, hfree]; decide)

theorem settingsFor_none (h : ¬MakesSettings tree none) :
    settingsFor tree none
      = (loadSettings tree (pathOf (settingsPlace tree)) (some (settingsPlace tree)), tree) := by
  have hthere : ¬tree.isFree (settingsPlace tree) = true := fun hfree => h ⟨rfl, hfree⟩
  rw [FileTree.isFree, Bool.not_eq_true', Bool.not_eq_false] at hthere
  exact if_pos hthere

/-- Nothing is written where settings are there. -/
theorem tree_settingsFor (h : ¬MakesSettings tree path) : (settingsFor tree path).2 = tree := by
  cases path with
  | some path => rfl
  | none => rw [settingsFor_none h]

theorem isFolder_home (tree : FileTree) : tree.isFolder tree.home = true := by
  simp [FileTree.isFolder, FileTree.namedFolders]

theorem isFolder_dropLast_settingsPlace (tree : FileTree) :
    tree.isFolder (settingsPlace tree).dropLast = true := by
  rw [settingsPlace, List.dropLast_concat]
  exact isFolder_home tree

theorem isFolder_settingsFor (folder : Place) :
    (settingsFor tree path).2.isFolder folder = tree.isFolder folder := by
  by_cases h : MakesSettings tree path
  · rw [settingsFor_of_makesSettings h]
    exact FileTree.isFolder_setText_eq _ _ _ (.inr (isFolder_dropLast_settingsPlace tree)) folder
  · rw [tree_settingsFor h]

/-- Loading settings leaves every path where it led. -/
theorem place?_settingsFor (file : String) :
    (settingsFor tree path).2.place? file = tree.place? file := by
  by_cases h : MakesSettings tree path
  · rw [settingsFor_of_makesSettings h]
    exact FileTree.place?_setText_eq _ _ _ (.inr (isFolder_dropLast_settingsPlace tree)) file
  · rw [tree_settingsFor h]

/-- Loading settings leaves every file alone. -/
theorem file?_settingsFor {place : Place} {bytes : ByteArray} (h : tree.file? place = some bytes) :
    (settingsFor tree path).2.file? place = some bytes := by
  by_cases hmakes : MakesSettings tree path
  · have hne : place ≠ settingsPlace tree := by
      rintro rfl
      rw [(FileTree.isFree_iff.mp hmakes.2).1] at h
      cases h
    rw [settingsFor_of_makesSettings hmakes, FileTree.file?_setText_of_ne _ _ _ hne]
    exact h
  · rw [tree_settingsFor hmakes]
    exact h

/-- A file that can be read before settings are loaded can be read afterwards. -/
theorem read?_settingsFor {file source : String} (h : tree.read? file = some source) :
    (settingsFor tree path).2.read? file = some source := by
  obtain ⟨place, hplace, htext⟩ := Option.bind_eq_some_iff.mp h
  obtain ⟨bytes, hbytes, hdecode⟩ := Option.bind_eq_some_iff.mp htext
  rw [FileTree.read?, place?_settingsFor, hplace, Option.bind_some, FileTree.textAt?,
    file?_settingsFor hbytes]
  exact hdecode

/-- The default settings, as they are written, are laid out well and hold no loop. -/
theorem laidOut_standard (optimized : Bool) :
    laidOut .standard optimized Settings.standard.write = Settings.standard.write := by
  obtain ⟨text, hwrite, hformat, hloops⟩ : ∃ text, Settings.standard.write = String.ofList text ∧
      Layout.formatText .standard text = text ∧
      Layout.countedLoops (significantTokens (Lexer.tokensFrom 0 text)) = [] := by
    refine ⟨_, rfl, ?_, ?_⟩
    · decide +kernel
    · decide +kernel
  cases optimized with
  | false => simp [laidOut, SolidityTools.format, hwrite, hformat]
  | true =>
      have hoptimize : Layout.optimizeText .standard text = Layout.formatText .standard text :=
        Layout.optimizeText_eq_formatText (by rwa [hformat])
      simp [laidOut, optimize, hwrite, hformat, hoptimize]

end Settings

/-! ## Changes -/

section Changes

variable (environment : Variables.Bindings) (tree : FileTree) (arguments : List String)

/-- Whether the arguments ask for an action with the settings file that is named. -/
def Asks (action : Action) (path : Option String) : Prop :=
  ∃ json, Arguments.request? (namedSettings? tree environment) arguments
    = some (.act action path json)

/-- Formatting in place puts a text into a file: the arguments ask for it, the settings can be
loaded, the file can be read, and its text laid out anew is another one. -/
inductive Rewrites : Place → String → Prop
  | operand {file source : String} {optimized : Bool} {path : Option String} {settings : Settings}
      {place : Place}
      (asks : Asks environment tree arguments (.format file true false optimized) path)
      (configured : (settingsFor tree path).1 = .ok settings)
      (place_eq : tree.place? file = some place) (readable : tree.textAt? place = some source)
      (changed : laidOut settings.editor optimized source ≠ source) :
      Rewrites place (laidOut settings.editor optimized source)

/-- A run makes a file with a text where nothing was. -/
inductive Makes : Place → String → Prop
  /-- The default settings, for an action that needs settings if no settings file is named. -/
  | settings {action : Action} (asks : Asks environment tree arguments action none)
      (needed : action.needsSettings = true) (free : tree.isFree (settingsPlace tree) = true) :
      Makes (settingsPlace tree) Settings.standard.write
  /-- A file that is started from a known template. -/
  | output {id file : String} {path : Option String} {template : Template} {place : Place}
      (asks : Asks environment tree arguments (.create id (some file)) path)
      (known : Template.find? id = some template)
      (place_eq : tree.place? file = some place) (free : tree.isFree place = true) :
      Makes place template.code

/-- What a run can do to the tree. -/
inductive Effect : FileTree → Prop
  | nothing : Effect tree
  | makes {place : Place} {text : String} (h : Makes environment tree arguments place text) :
      Effect (tree.setText place text)
  | rewrites {place : Place} {text : String} {after : FileTree} (before : Effect after)
      (h : Rewrites environment tree arguments place text)
      (file : tree.isFolder place = false) : Effect (after.setText place text)

end Changes

variable {environment : Variables.Bindings} {tree : FileTree} {arguments : List String}

theorem Asks.unique {action action' : Action} {path path' : Option String}
    (h : Asks environment tree arguments action path)
    (h' : Asks environment tree arguments action' path') : action = action' ∧ path = path' := by
  obtain ⟨json, hrequest⟩ := h
  obtain ⟨json', hrequest'⟩ := h'
  rw [hrequest] at hrequest'
  injection hrequest' with heq
  injection heq with haction hpath hjson
  exact ⟨haction, hpath⟩

theorem Makes.isFree {place : Place} {text : String}
    (h : Makes environment tree arguments place text) : tree.isFree place = true := by
  cases h with
  | settings _ _ free => exact free
  | output _ _ _ free => exact free

/-- A run makes one file at most. -/
theorem Makes.unique {place place' : Place} {text text' : String}
    (h : Makes environment tree arguments place text)
    (h' : Makes environment tree arguments place' text') : place = place' := by
  cases h with
  | settings asks needed _ =>
      cases h' with
      | settings => rfl
      | output asks' _ _ _ =>
          rw [(asks.unique asks').1] at needed
          cases needed
  | output asks _ hplace _ =>
      cases h' with
      | settings asks' needed _ =>
          rw [(asks'.unique asks).1] at needed
          cases needed
      | output asks' _ hplace' _ =>
          obtain ⟨haction, -⟩ := asks.unique asks'
          injection haction with hid hfile
          rw [Option.some.inj hfile, hplace'] at hplace
          exact (Option.some.inj hplace).symm

theorem Rewrites.isFile {place : Place} {text : String}
    (h : Rewrites environment tree arguments place text) :
    ∃ bytes, tree.file? place = some bytes := by
  cases h with
  | operand _ _ _ readable _ =>
      obtain ⟨bytes, hbytes, -⟩ := Option.bind_eq_some_iff.mp readable
      exact ⟨bytes, hbytes⟩

/-- **What a place holds after a run**: what it held, or the new text of a file that is formatted in
place, or a file that was made where nothing was. -/
theorem Effect.file?_cases {after : FileTree} (h : Effect environment tree arguments after)
    (place : Place) :
    after.file? place = tree.file? place ∨
      (∃ text, Rewrites environment tree arguments place text ∧
        after.file? place = some text.toUTF8) ∨
      ∃ text, Makes environment tree arguments place text ∧
        after.file? place = some text.toUTF8 := by
  induction h with
  | nothing => exact .inl rfl
  | @makes place' text hmakes =>
      by_cases hplace : place = place'
      · subst hplace
        exact .inr (.inr ⟨text, hmakes, FileTree.file?_setText _ _ _⟩)
      · exact .inl (FileTree.file?_setText_of_ne _ _ _ hplace)
  | @rewrites place' text after _ hrewrites _ ih =>
      by_cases hplace : place = place'
      · subst hplace
        exact .inr (.inl ⟨text, hrewrites, FileTree.file?_setText _ _ _⟩)
      · rw [FileTree.file?_setText_of_ne _ _ _ hplace]
        exact ih

theorem Effect.working_eq {after : FileTree} (h : Effect environment tree arguments after) :
    after.working = tree.working := by
  induction h with
  | nothing => rfl
  | makes => rfl
  | rewrites _ _ _ ih => exact ih

theorem Effect.home_eq {after : FileTree} (h : Effect environment tree arguments after) :
    after.home = tree.home := by
  induction h with
  | nothing => rfl
  | makes => rfl
  | rewrites _ _ _ ih => exact ih

/-! ## Commands -/

@[simp] theorem tree_showFile (tree : FileTree) (file : String) (text : String → String) :
    (showFile tree file text).tree = tree := by
  rw [showFile]
  split
  · rfl
  · rfl

@[simp] theorem tree_showFileAs (json : Bool) (tree : FileTree) (file : String)
    (text : String → String) (value : String → Json) :
    (showFileAs json tree file text value).tree = tree := by
  rw [showFileAs, tree_showFile]

@[simp] theorem tree_lint (json : Bool) (settings : LintSettings) (tree : FileTree)
    (files : List String) : (lint json settings tree files).tree = tree := rfl

@[simp] theorem tree_imports (json : Bool) (tree : FileTree) (files : List String) :
    (imports json tree files).tree = tree := by
  rw [imports]
  split
  · rfl
  · rfl

/-- An action that only looks at files changes no more than loading its settings does. -/
theorem tree_withSettings {path : Option String} {act : Settings → FileTree → Outcome}
    (hact : ∀ settings tree, (act settings tree).tree = tree) :
    (withSettings tree path act).tree = (settingsFor tree path).2 := by
  rw [withSettings]
  split
  · next heq => rw [heq]; rfl
  · next heq => rw [heq]; exact hact _ _

theorem effect_settingsFor {action : Action} {path : Option String}
    (hasks : Asks environment tree arguments action path) (hneeded : action.needsSettings = true) :
    Effect environment tree arguments (settingsFor tree path).2 := by
  by_cases h : MakesSettings tree path
  · rw [settingsFor_of_makesSettings h]
    rw [h.1] at hasks
    exact .makes (.settings hasks hneeded h.2)
  · rw [tree_settingsFor h]
    exact .nothing

/-- A text that changes when it is laid out was there before the settings were loaded: the default
settings are laid out well when they are made. -/
theorem textAt?_of_changed {path : Option String} {settings : Settings} {place : Place}
    {source : String} {optimized : Bool} (hsettings : (settingsFor tree path).1 = .ok settings)
    (htext : (settingsFor tree path).2.textAt? place = some source)
    (hchanged : laidOut settings.editor optimized source ≠ source) :
    tree.textAt? place = some source := by
  by_cases h : MakesSettings tree path
  · rw [settingsFor_of_makesSettings h] at hsettings htext
    by_cases hplace : place = settingsPlace tree
    · rw [hplace, FileTree.textAt?_setText] at htext
      obtain rfl := Except.ok.inj hsettings
      obtain rfl := Option.some.inj htext
      exact absurd (laidOut_standard optimized) hchanged
    · rwa [FileTree.textAt?_setText_of_ne _ _ _ hplace] at htext
  · rwa [tree_settingsFor h] at htext

/-- Formatting changes its operand only, and only where it is asked to and the text changes. -/
theorem tree_format_cases (settings : EditorSettings) (tree : FileTree) (file : String)
    (write check optimized : Bool) :
    (format settings tree file write check optimized).tree = tree ∨
      ∃ place source, write = true ∧ check = false ∧ tree.place? file = some place ∧
        tree.textAt? place = some source ∧ laidOut settings optimized source ≠ source ∧
        tree.isFolder place = false ∧
        (format settings tree file write check optimized).tree
          = tree.setText place (laidOut settings optimized source) := by
  rw [format]
  split
  · exact .inl rfl
  · next source hread =>
      dsimp only
      cases check with
      | true =>
          rw [if_pos rfl]
          split
          · exact .inl rfl
          · exact .inl rfl
      | false =>
          rw [if_neg Bool.false_ne_true]
          cases write with
          | false => exact .inl rfl
          | true =>
              rw [if_pos rfl]
              split
              · exact .inl rfl
              · next hchanged =>
                  split
                  · next after hafter =>
                      obtain ⟨place, hplace, htext⟩ := Option.bind_eq_some_iff.mp hread
                      rw [FileTree.write?, hplace, Option.bind_some, FileTree.writeAt?] at hafter
                      split at hafter
                      · cases hafter
                      · next hfolder =>
                          obtain rfl := Option.some.inj hafter
                          exact .inr ⟨place, source, rfl, rfl, hplace, htext, hchanged,
                            Bool.not_eq_true _ ▸ hfolder, rfl⟩
                  · exact .inl rfl

theorem effect_format {file : String} {write check optimized : Bool} {path : Option String}
    {settings : Settings}
    (hasks : Asks environment tree arguments (.format file write check optimized) path)
    (hsettings : (settingsFor tree path).1 = .ok settings) :
    Effect environment tree arguments
      (format settings.editor (settingsFor tree path).2 file write check optimized).tree := by
  have hloaded := effect_settingsFor hasks rfl
  rcases tree_format_cases settings.editor (settingsFor tree path).2 file write check optimized with
    hsame | ⟨place, source, rfl, rfl, hplace, htext, hchanged, hfolder, hafter⟩
  · rw [hsame]
    exact hloaded
  · rw [hafter]
    rw [place?_settingsFor] at hplace
    rw [isFolder_settingsFor] at hfolder
    have hsource := textAt?_of_changed hsettings htext hchanged
    exact .rewrites hloaded (.operand hasks hsettings hplace hsource hchanged) hfolder

theorem effect_create {id : String} {output path : Option String}
    (hasks : Asks environment tree arguments (.create id output) path) :
    Effect environment tree arguments (create tree id output).tree := by
  unfold create
  split
  · exact .nothing
  · exact .nothing
  · next template file hknown =>
      split
      · exact .nothing
      · next hexists =>
          split
          · next after hafter =>
              obtain ⟨place, hplace, hwrite⟩ := Option.bind_eq_some_iff.mp hafter
              rw [FileTree.writeAt?] at hwrite
              split at hwrite
              · cases hwrite
              · obtain rfl := Option.some.inj hwrite
                rw [FileTree.pathExists, hplace, Option.any_some, Bool.not_eq_true] at hexists
                exact .makes (.output hasks hknown hplace (by rw [FileTree.isFree, hexists]; rfl))
          · exact .nothing

theorem effect_perform {action : Action} {path : Option String} (json : Bool)
    (hasks : Asks environment tree arguments action path) :
    Effect environment tree arguments (perform tree path json action).tree := by
  cases action with
  | tokenize file => rw [perform, tree_showFileAs]; exact .nothing
  | highlight file => rw [perform, tree_showFileAs]; exact .nothing
  | minimap file => rw [perform, tree_showFileAs]; exact .nothing
  | lint files =>
      rw [perform, tree_withSettings fun settings tree => tree_lint json settings.lint tree files]
      exact effect_settingsFor hasks rfl
  | gas file =>
      rw [perform, tree_withSettings fun settings tree => tree_showFileAs json tree file _ _]
      exact effect_settingsFor hasks rfl
  | format file write check optimized =>
      rw [perform, withSettings]
      have hloaded := effect_settingsFor hasks rfl
      split
      · next heq =>
          rw [heq] at hloaded
          exact hloaded
      · next settings after heq =>
          have hformat := effect_format hasks (congrArg Prod.fst heq)
          rwa [heq] at hformat
  | imports files => rw [perform, tree_imports]; exact .nothing
  | create template output => exact effect_create hasks
  | templates => exact .nothing

/-- Every run ends in a tree that it can lead to. -/
theorem effect_run (environment : Variables.Bindings) (tree : FileTree) (arguments : List String) :
    Effect environment tree arguments (run environment tree arguments).tree := by
  rw [run]
  split
  · exact .nothing
  · exact .nothing
  · exact .nothing
  · next action path json hrequest => exact effect_perform json ⟨json, hrequest⟩

/-- A run that formats in place leaves the new text in its operand. -/
theorem file?_run_of_rewrites {place : Place} {text : String}
    (h : Rewrites environment tree arguments place text) (hfolder : tree.isFolder place = false) :
    (run environment tree arguments).tree.file? place = some text.toUTF8 := by
  cases h with
  | @operand file source optimized path settings place asks configured hplace readable changed =>
      obtain ⟨json, hrequest⟩ := asks
      have hread : (settingsFor tree path).2.read? file = some source :=
        read?_settingsFor (by rw [FileTree.read?, hplace]; exact readable)
      have hwrite : (settingsFor tree path).2.write? file (laidOut settings.editor optimized source)
          = some ((settingsFor tree path).2.setText place
              (laidOut settings.editor optimized source)) := by
        rw [FileTree.write?, place?_settingsFor, hplace, Option.bind_some, FileTree.writeAt?,
          isFolder_settingsFor, hfolder]
        rfl
      have hsettings : settingsFor tree path = (.ok settings, (settingsFor tree path).2) :=
        Prod.ext configured rfl
      rw [run, hrequest]
      dsimp only
      rw [perform, withSettings, hsettings]
      dsimp only
      rw [format, hread]
      simp only [Bool.false_eq_true, if_false, if_true, if_neg changed, hwrite]
      exact FileTree.file?_setText _ _ _

/-- **A run damages no file.** Whatever the arguments are and however the run ends, every file holds
afterwards what it held before, unless it is the operand of formatting in place, could be read and
changes when it is laid out with the settings that were loaded; then it holds exactly that text. A
file that was not there is the settings file, made with all defaults for an action that needs
settings and has none, or the file for which a known template was asked and where nothing was; and
there is one such file at most. -/
theorem run_damages_no_file (environment : Variables.Bindings) (tree : FileTree)
    (arguments : List String) :
    let after := (run environment tree arguments).tree
    (∀ place bytes, tree.file? place = some bytes →
        after.file? place = some bytes ∨
          ∃ text, Rewrites environment tree arguments place text ∧
            after.file? place = some text.toUTF8) ∧
      (∀ place text, Rewrites environment tree arguments place text →
        tree.isFolder place = false → after.file? place = some text.toUTF8) ∧
      (∀ place bytes, tree.file? place = none → after.file? place = some bytes →
        ∃ text, Makes environment tree arguments place text ∧ bytes = text.toUTF8) ∧
      ∀ place place', tree.isFile place = false → after.isFile place = true →
        tree.isFile place' = false → after.isFile place' = true → place = place' := by
  intro after
  have heffect : Effect environment tree arguments after := effect_run environment tree arguments
  -- what is new was made
  have hnew : ∀ place bytes, tree.file? place = none → after.file? place = some bytes →
      ∃ text, Makes environment tree arguments place text ∧ bytes = text.toUTF8 := by
    intro place bytes hbefore hafter
    rcases heffect.file?_cases place with hsame | ⟨text, hrewrites, -⟩ | ⟨text, hmakes, htext⟩
    · rw [hsame, hbefore] at hafter
      cases hafter
    · obtain ⟨bytes', hbytes'⟩ := hrewrites.isFile
      rw [hbefore] at hbytes'
      cases hbytes'
    · rw [hafter] at htext
      exact ⟨text, hmakes, Option.some.inj htext⟩
  refine ⟨?_, fun place text h hfolder => file?_run_of_rewrites h hfolder, hnew, ?_⟩
  · intro place bytes hbefore
    rcases heffect.file?_cases place with hsame | hrewrites | ⟨text, hmakes, -⟩
    · exact .inl (hsame.trans hbefore)
    · exact .inr hrewrites
    · rw [(FileTree.isFree_iff.mp hmakes.isFree).1] at hbefore
      cases hbefore
  · intro place place' hbefore hafter hbefore' hafter'
    obtain ⟨bytes, hbytes⟩ := Option.isSome_iff_exists.mp hafter
    obtain ⟨bytes', hbytes'⟩ := Option.isSome_iff_exists.mp hafter'
    rw [FileTree.isFile, Option.isSome_eq_false_iff, Option.isNone_iff_eq_none] at hbefore hbefore'
    obtain ⟨_, hmakes, -⟩ := hnew place bytes hbefore hbytes
    obtain ⟨_, hmakes', -⟩ := hnew place' bytes' hbefore' hbytes'
    exact hmakes.unique hmakes'

end Command

end SolidityTools
