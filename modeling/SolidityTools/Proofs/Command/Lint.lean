import SolidityTools.Proofs.Command.Format
import SolidityTools.Proofs.Lint.Delimiter

set_option autoImplicit false

/-! # How linting ends

A run that lints readable files objects exactly if one of them is broken. What is written on the way
has no part in it, so it ends the same for people and for machines, and whatever the order of the
files is.
-/

namespace SolidityTools

namespace Command

open Lint

/-! ## Files -/

def HasBroken (settings : LintSettings) (tree : FileTree) (files : List String) : Prop :=
  ∃ file ∈ files, ∃ source, tree.read? file = some source ∧ Broken settings source

variable {settings : LintSettings} {tree : FileTree} {files : List String}

theorem hasBroken_cons {file source : String} (hread : tree.read? file = some source) :
    HasBroken settings tree (file :: files) ↔
      Broken settings source ∨ HasBroken settings tree files := by
  simp [HasBroken, hread]

/-- The order of the files does not matter. -/
theorem hasBroken_of_perm {files' : List String} (h : files'.Perm files) :
    HasBroken settings tree files' ↔ HasBroken settings tree files := by
  simp only [HasBroken, h.mem_iff]

/-- Files that can be read are all linted, and an error is reported if one of them is broken. -/
theorem lintFiles_of_readable (settings : LintSettings)
    (hreadable : ∀ file ∈ files, ∃ source, tree.read? file = some source) :
    (lintFiles settings tree files).2 = none ∧
      (((lintFiles settings tree files).1.any fun (_, _, issues) => hasError issues) = true ↔
        HasBroken settings tree files) := by
  induction files with
  | nil => exact ⟨rfl, by simp [lintFiles, HasBroken]⟩
  | cons file files ih =>
      obtain ⟨source, hread⟩ := hreadable file List.mem_cons_self
      obtain ⟨hcause, hany⟩ := ih fun file hfile => hreadable file (List.mem_cons_of_mem _ hfile)
      rw [lintFiles, hread, hasBroken_cons hread]
      refine ⟨hcause, ?_⟩
      rw [← hany, ← hasError_lint_iff]
      simp

/-- Linting files that can be read objects if one of them is broken, and succeeds otherwise. -/
theorem ending_lint_iff (json : Bool) (settings : LintSettings)
    (hreadable : ∀ file ∈ files, ∃ source, tree.read? file = some source) :
    ((lint json settings tree files).ending = .objection ↔ HasBroken settings tree files) ∧
      ((lint json settings tree files).ending = .success ↔ ¬HasBroken settings tree files) := by
  obtain ⟨hcause, hany⟩ := lintFiles_of_readable settings hreadable
  rw [← hany]
  simp [lint, hcause]

/-! ## Runs -/

variable {environment : Variables.Bindings} {arguments : List String} {path : Option String}

/-- Loading settings leaves readable files as they are. -/
theorem hasBroken_settingsFor
    (hreadable : ∀ file ∈ files, ∃ source, tree.read? file = some source) :
    HasBroken settings (settingsFor tree path).2 files ↔ HasBroken settings tree files := by
  refine exists_congr fun file => and_congr_right fun hfile => ?_
  obtain ⟨source, hread⟩ := hreadable file hfile
  rw [hread, read?_settingsFor hread]

/-- A run that lints readable files has status 1 if one of them is broken, and status 0
otherwise. -/
theorem AsksWith.status_run_lint {settings : Settings}
    (h : AsksWith environment tree arguments (.lint files) path settings)
    (hreadable : ∀ file ∈ files, ∃ source, tree.read? file = some source) :
    ((run environment tree arguments).ending.status = 1 ↔ HasBroken settings.lint tree files) ∧
      ((run environment tree arguments).ending.status = 0 ↔
        ¬HasBroken settings.lint tree files) := by
  obtain ⟨json, hrun⟩ := exists_run_eq_perform h.asks
  have hreadable' : ∀ file ∈ files, ∃ source,
      (settingsFor tree path).2.read? file = some source := by
    intro file hfile
    obtain ⟨source, hread⟩ := hreadable file hfile
    exact ⟨source, read?_settingsFor hread⟩
  obtain ⟨hobjection, hsuccess⟩ := ending_lint_iff json settings.lint hreadable'
  rw [hasBroken_settingsFor hreadable] at hobjection hsuccess
  rw [hrun, perform, withSettings, h.settingsFor_eq]
  dsimp only
  by_cases hbroken : HasBroken settings.lint tree files
  · rw [hobjection.mpr hbroken]
    simp [Ending.status, hbroken]
  · rw [hsuccess.mpr hbroken]
    simp [Ending.status, hbroken]

/-- **The status of linting.** With settings that can be loaded, a run that lints readable files
ends with status 1 exactly if one of them is broken, and with status 0 otherwise. It is the same
status for all arguments that ask for these files in some order, be the report for people or for
machines. -/
theorem status_lint {settings : Settings}
    (hasks : AsksWith environment tree arguments (.lint files) path settings)
    (hreadable : ∀ file ∈ files, ∃ source, tree.read? file = some source) :
    let status := (run environment tree arguments).ending.status
    (status = 1 ↔ ∃ file ∈ files, ∃ source, tree.read? file = some source ∧
        Broken settings.lint source) ∧
      (status = 0 ↔ ∀ file ∈ files, ∀ source, tree.read? file = some source →
        ¬Broken settings.lint source) ∧
      ∀ arguments' files' path', files'.Perm files →
        AsksWith environment tree arguments' (.lint files') path' settings →
        (run environment tree arguments').ending.status = status := by
  intro status
  obtain ⟨hone, hzero⟩ := hasks.status_run_lint hreadable
  refine ⟨hone, hzero.trans (by simp [HasBroken]), ?_⟩
  intro arguments' files' path' hperm hasks'
  obtain ⟨hone', hzero'⟩ :=
    hasks'.status_run_lint fun file hfile => hreadable file (hperm.mem_iff.mp hfile)
  rw [hasBroken_of_perm hperm] at hone' hzero'
  by_cases hbroken : HasBroken settings.lint tree files
  · exact (hone'.mpr hbroken).trans (hone.mpr hbroken).symm
  · exact (hzero'.mpr hbroken).trans (hzero.mpr hbroken).symm

/-- A tree with a stray brace in one file, which the settings do not mind, and an open string in
another. -/
def brokenTree : FileTree where
  folders := []
  files :=
    [(["c.toml"], "[lint]\ndisabled_rules = [\"unbalanced-braces\"]\n".toUTF8),
      (["a.sol"], "\x7d".toUTF8), (["b.sol"], "s = \"x".toUTF8)]
  working := []
  home := []

/-- The settings in the tree with broken files. -/
def bracesDisabled : Settings :=
  ⟨.standard, { LintSettings.standard with disabledRules := ["unbalanced-braces"] }, .standard⟩

/-- An open string is an error for people and for machines, and a stray brace is none where the rule
is disabled. -/
theorem status_lint_broken :
    let people := ["lint", "--config", "c.toml", "a.sol", "b.sol"]
    let machines := ["--json", "--config", "c.toml", "lint", "b.sol", "a.sol"]
    let one := ["lint", "a.sol", "--config", "c.toml"]
    let files := ["a.sol", "b.sol"]
    AsksWith [] brokenTree people (.lint files) (some "c.toml") bracesDisabled ∧
      AsksWith [] brokenTree one (.lint ["a.sol"]) (some "c.toml") bracesDisabled ∧
      (∀ file ∈ files, ∃ source, brokenTree.read? file = some source) ∧
      (run [] brokenTree people).ending.status = 1 ∧
      (run [] brokenTree machines).ending.status = 1 ∧
      (run [] brokenTree one).ending.status = 0 := by
  intro people machines one files
  have hbraces : brokenTree.read? "a.sol" = some "\x7d" := by decide +kernel
  have hstring : brokenTree.read? "b.sol" = some "s = \"x" := by decide +kernel
  have hconfigured : (settingsFor brokenTree (some "c.toml")).1 = .ok bracesDisabled := by
    have htext : (brokenTree.place? "c.toml").bind brokenTree.textAt?
        = some "[lint]\ndisabled_rules = [\"unbalanced-braces\"]\n" := by decide +kernel
    have hsome : Settings.read? "[lint]\ndisabled_rules = [\"unbalanced-braces\"]\n"
        = some bracesDisabled := by decide +kernel
    simp only [settingsFor, loadSettings, htext, hsome]
  have hpeople : AsksWith [] brokenTree people (.lint files) (some "c.toml") bracesDisabled :=
    ⟨⟨false, by decide +kernel⟩, hconfigured⟩
  have hmachines : AsksWith [] brokenTree machines (.lint ["b.sol", "a.sol"]) (some "c.toml")
      bracesDisabled := ⟨⟨true, by decide +kernel⟩, hconfigured⟩
  have hone : AsksWith [] brokenTree one (.lint ["a.sol"]) (some "c.toml") bracesDisabled :=
    ⟨⟨false, by decide +kernel⟩, hconfigured⟩
  have hreadable : ∀ file ∈ files, ∃ source, brokenTree.read? file = some source := by
    simp [files, hbraces, hstring]
  obtain ⟨hbroken, -, hsame⟩ := status_lint hpeople hreadable
  obtain ⟨-, hclean, -⟩ := status_lint hone fun file hfile => ⟨"\x7d", by simp_all⟩
  have hstatus : (run [] brokenTree people).ending.status = 1 := by
    refine hbroken.mpr ⟨"b.sol", by decide, _, hstring, ?_⟩
    have hlast : (tokenize "s = \"x").getLast? = some ⟨.string, "\"x", 4⟩ := by decide +kernel
    exact .literal (by decide) hlast
      ((Lexer.isTerminated_eq_false_iff (List.mem_of_getLast? hlast)).mp (by decide +kernel))
  refine ⟨hpeople, hone, hreadable, hstatus,
    (hsame machines _ _ (.swap _ _ _) hmachines).trans hstatus, ?_⟩
  refine hclean.mpr fun file hfile source hread hbroken => ?_
  obtain rfl := List.mem_singleton.mp hfile
  obtain rfl := Option.some.inj (hbraces.symm.trans hread)
  cases hbroken with
  | literal _ last unclosed =>
      have hopen := (Lexer.isTerminated_eq_false_iff (List.mem_of_getLast? last)).mpr unclosed
      have hlast : (tokenize "\x7d").getLast? = some ⟨.operator, "\x7d", 0⟩ := by decide +kernel
      obtain rfl := Option.some.inj (hlast.symm.trans last)
      cases hopen
  | braces enabled => exact absurd enabled (by decide)

end Command

end SolidityTools
