import Mathlib.Logic.Basic
import TileFlow.Proofs.Text.Lines
import TileFlow.Tool.Toolchain

/-!
# The search path of tools

The tools that a compilation starts look for others in the directories of the host's search path
first, in the order in which the host has them, and in two directories of the vendor installation
after that. The directories are handed over as one text with separators between them, so what a tool
finds is what the text is cut into again.

An installation whose path holds the separator is the exception. Its directories cannot be part of
such a text, and the tools are started with no search path at all.

## Main results

* `Path.mem_join_iff`: joining adds slashes only.
* `Toolchain.split_searchPathText`, `Toolchain.searchPathText_eq_empty`: what the text of a search
  path is cut into, and when it is empty.
* `Toolchain.discover_environment`: the search path that tools find.
-/

namespace TileFlow

/-- A path below another has the characters of both and slashes. -/
theorem Path.mem_join_iff {base name : String} {c : Char} (hname : isAbsolute name = false)
    (hc : c ≠ '/') : c ∈ (join base name).toList ↔ c ∈ base.toList ∨ c ∈ name.toList := by
  rw [join, hname, if_neg Bool.false_ne_true]
  split
  · simp
  · simp [hc]

namespace Toolchain

variable {c : Toolchain} {host : HostEnvironment}

/-! ### One text for all directories -/

/-- The environment has one search path. -/
theorem filter_environment (c : Toolchain) :
    c.environment.filter (·.1 == "PATH") = [("PATH", c.searchPathText)] := by
  rw [environment]
  cases c.vitisRoot <;> cases c.aietoolsRoot <;> rfl

/-- The text of a search path is cut into its directories if none of them holds the separator. -/
theorem split_searchPathText (hne : c.searchPath ≠ [])
    (h : ∀ entry ∈ c.searchPath, ':' ∉ entry.toList) :
    Text.split ':' c.searchPathText = c.searchPath := by
  have hany : c.searchPath.any (·.toList.contains ':') = false := by simpa using h
  rw [searchPathText, hany, if_neg Bool.false_ne_true, Text.split_joinWith hne h]

/-- The text of a search path is empty if a directory holds the separator. -/
theorem searchPathText_eq_empty (h : ∃ entry ∈ c.searchPath, ':' ∈ entry.toList) :
    c.searchPathText = "" := by
  have hany : c.searchPath.any (·.toList.contains ':') = true := by simpa using h
  rw [searchPathText, hany, if_pos rfl]

/-! ### The directories of the vendor -/

/-- The directories of a vendor installation that tools are looked for in. -/
def vendorDirectories (aietools vitis : String) : List String :=
  [Path.join aietools "bin", Path.join vitis "bin"]

/-- The directories of the vendor hold the separator exactly if the path of the installation
does. -/
theorem separator_mem_vendorDirectories (t : FileTree) (directory : Location) (vitis : String) :
    (∃ entry ∈ vendorDirectories (aietoolsOf t directory vitis) vitis, ':' ∈ entry.toList) ↔
      ':' ∈ vitis.toList := by
  have hbelow : ∀ base name, Path.isAbsolute name = false → ':' ∉ name.toList →
      (':' ∈ (Path.join base name).toList ↔ ':' ∈ base.toList) := by
    intro base name hname hseparator
    rw [Path.mem_join_iff hname (by decide), or_iff_left hseparator]
  have haietools : ':' ∈ (aietoolsOf t directory vitis).toList ↔ ':' ∈ vitis.toList := by
    rw [aietoolsOf]
    split
    · exact hbelow _ _ (by decide) (by decide)
    · exact hbelow _ _ (by decide) (by decide)
  simp only [vendorDirectories, List.mem_cons, List.not_mem_nil, or_false, exists_eq_or_imp,
    exists_eq_left, hbelow _ "bin" (by decide) (by decide), haietools, or_self]

/-- The directories of the host are followed by those of the installation, if there is one. -/
theorem ofInstallation_searchPath (t : FileTree) (directory : Location) (peano : Option String)
    (host : HostEnvironment) (vitis : Option String) :
    (ofInstallation t directory peano host vitis).searchPath =
      host.searchPath ++ vitis.elim [] fun root =>
        vendorDirectories (aietoolsOf t directory root) root := by
  cases vitis <;> rfl

/-- Tools find one search path, whichever installation of the vendor is found: the directories of
the host in their order, and after them those of the installation if there is one and none
otherwise. The search path is empty if the path of the installation holds the separator. -/
theorem discover_environment {path : String} (hpath : host.path = some path) (t : FileTree)
    (directory : Location) (peano : Option String) :
    discover t directory peano host =
        ofInstallation t directory peano host (findVitis t directory host) ∧
      ∀ vitis, ∃ value,
        (ofInstallation t directory peano host vitis).environment.filter (·.1 == "PATH") =
            [("PATH", value)] ∧
          match vitis with
          | none => Text.split ':' value = Text.split ':' path
          | some root => ∃ aietools,
              (ofInstallation t directory peano host vitis).aietoolsRoot = some aietools ∧
              if ':' ∈ root.toList then value = ""
              else Text.split ':' value =
                Text.split ':' path ++ [Path.join aietools "bin", Path.join root "bin"] := by
  have hhost : host.searchPath = Text.split ':' path := by rw [HostEnvironment.searchPath, hpath]
  have hne : host.searchPath ≠ [] := hhost ▸ Text.split_ne_nil ':' path
  have hentries : ∀ entry ∈ host.searchPath, ':' ∉ entry.toList := by
    rw [hhost]
    exact fun entry => Text.notMem_of_mem_split
  refine ⟨rfl, fun vitis => ⟨_, filter_environment _, ?_⟩⟩
  have hsearch := ofInstallation_searchPath t directory peano host vitis
  cases vitis with
  | none =>
      rw [Option.elim_none, List.append_nil] at hsearch
      dsimp only
      rw [split_searchPathText (hsearch ▸ hne) (hsearch ▸ hentries), hsearch, hhost]
  | some root =>
      rw [Option.elim_some] at hsearch
      have hseparator := separator_mem_vendorDirectories t directory root
      refine ⟨aietoolsOf t directory root, rfl, ?_⟩
      split
      · rename_i hroot
        obtain ⟨entry, hentry, hmem⟩ := hseparator.2 hroot
        have hin := List.mem_append_right host.searchPath hentry
        exact searchPathText_eq_empty ⟨entry, hsearch ▸ hin, hmem⟩
      · rename_i hroot
        have hall : ∀ entry ∈ (ofInstallation t directory peano host (some root)).searchPath,
            ':' ∉ entry.toList := by
          rw [hsearch]
          refine List.forall_mem_append.2 ⟨hentries, fun entry hentry hmem => hroot ?_⟩
          exact hseparator.1 ⟨entry, hentry, hmem⟩
        rw [split_searchPathText (by simp [hsearch, hne]) hall, hsearch, hhost]
        rfl

/-- A vendor installation with the tools of the array. -/
def installed : FileTree where
  nodes := [(["opt"], .directory), (["opt", "vitis"], .directory),
    (["opt", "vitis", "aietools"], .directory), (["opt", "vitis", "bin"], .directory),
    (["opt", "vitis", "bin", "v++"], .file 0 true)]
  contents := #[[]]

/-- A host with an empty entry and the compiler of the vendor on its search path. -/
def installedHost : HostEnvironment where
  path := some "/usr/bin::/opt/vitis/bin"

/-- On an installed host the search path keeps what it has and adds the directories of the vendor.
-/
theorem discover_environment_installed :
    installedHost.path = some "/usr/bin::/opt/vitis/bin" ∧
      ∃ value,
        (discover installed [] none installedHost).environment.filter (·.1 == "PATH") =
            [("PATH", value)] ∧
          Text.split ':' value =
            ["/usr/bin", "", "/opt/vitis/bin", "/opt/vitis/aietools/bin", "/opt/vitis/bin"] := by
  have hvitis : findVitis installed [] installedHost = some "/opt/vitis" := by decide +kernel
  have haietools : aietoolsOf installed [] "/opt/vitis" = "/opt/vitis/aietools" := by decide +kernel
  have hpath : installedHost.path = some "/usr/bin::/opt/vitis/bin" := rfl
  obtain ⟨hdiscover, hfound⟩ := discover_environment hpath installed [] none
  obtain ⟨value, hvalue, aietools, hroot, hsplit⟩ := hfound (some "/opt/vitis")
  obtain rfl : "/opt/vitis/aietools" = aietools := haietools.symm.trans (Option.some.inj hroot)
  rw [hdiscover, hvitis]
  refine ⟨hpath, value, hvalue, ?_⟩
  rw [if_neg (by decide)] at hsplit
  exact hsplit.trans (by decide)

/-- An installation whose path holds the separator leaves the tools without a search path: not even
the directories of the host are part of it. -/
theorem discover_environment_separator :
    let c := discover {} [] none { vitis := some "/opt/vitis:2024", path := some "/usr/bin:/bin" }
    c.vitisRoot = some "/opt/vitis:2024" ∧
      c.aietoolsRoot = some "/opt/vitis:2024/cardano" ∧
      c.environment.filter (·.1 == "PATH") = [("PATH", "")] ∧
      ¬Text.split ':' "/usr/bin:/bin" <+: Text.split ':' "" ∧
      Text.split ':' "" ≠ Text.split ':' "/usr/bin:/bin" ++
        ["/opt/vitis:2024/cardano/bin", "/opt/vitis:2024/bin"] := by
  decide +kernel

end Toolchain

end TileFlow
