import RegisterMachine.Proofs.Command.Assembler
import RegisterMachine.Proofs.Files.Tree

namespace RegisterMachine.Command.Assembler

open SessionOn Files

/-!
# What becomes of the source file

Without an option the image goes next to the source.  It is the source itself
that is overwritten exactly if its name has the ending of an image already.
-/

/-- The name of a file ends in `.bin`, and is more than that. -/
def NamesImage (path : String) : Prop :=
  ∃ before, before ≠ "" ∧ Path.fileName? path = some (before ++ ".bin")

theorem namesImage_iff
    {path name : String}
    (isName : Path.fileName? path = some name) :
    NamesImage path ↔ Path.imageName name = name := by
  rw [Path.imageName_eq_iff, NamesImage, isName]
  simp only [Option.some.injEq]

/--
The image of a file that can be read, written next to it, is read in its place if
the file names an image; any other file is read as before.
-/
theorem read_of_write_imagePath
    {tree changed : FileTree}
    {source : String}
    {content image : List UInt8}
    (read : tree.read source = .ok content)
    (written : tree.write (Path.imagePath source) image = .ok changed) :
    (NamesImage source → changed.read source = .ok image) ∧
      (¬ NamesImage source → changed.read source = .ok content) := by
  obtain ⟨front, name, directory, leadsTo⟩ := FileTree.exists_leadsTo_of_read read
  obtain ⟨target, located⟩ := FileTree.exists_locate_of_write written
  obtain ⟨isName, rfl⟩ := FileTree.locate_imagePath leadsTo located
  have after := FileTree.read_of_write written located read leadsTo.locate
  have same :
      NamesImage source ↔ directory ++ [name] = directory ++ [Path.imageName name] := by
    rw [List.append_cancel_left_eq, List.cons.injEq, and_iff_left rfl,
      namesImage_iff isName, eq_comm]
  rw [after, same]
  exact ⟨fun same => by rw [if_pos same], fun apart => by rw [if_neg apart]⟩

/-- Arguments with options that name a file hold such an option. -/
theorem eq_nil_of_noOutput
    {options : List (String × String)}
    (allName : ∀ option ∈ options, namesOutput option.1 = true)
    (noOutput : ∀ argument ∈ optionArguments options, namesOutput argument = false) :
    options = [] := by
  cases options with
  | nil =>
      rfl
  | cons option others =>
      have named := allName option List.mem_cons_self
      rw [noOutput option.1 List.mem_cons_self] at named
      cases named

/--
Without an option that names a file, the command leaves its source as it was,
unless the name of the source ends in `.bin`, and is more than that.  Such a
source holds its image when the command has assembled it, with any code but 1.
-/
theorem read_source_of_run
    {source : String}
    {rest : List String}
    (noOutput : ∀ argument ∈ rest, namesOutput argument = false)
    (program : String)
    (session : Session) :
    ∃ exit after,
      (Assembler.run program (source :: rest) : SessionM Exit).run session =
        some (exit, after) ∧
      (exit.code = 1 ∨ asksForHelp source = true → after.files = session.files) ∧
      (¬ NamesImage source →
        after.files.read source = session.files.read source) ∧
      (NamesImage source → exit.code ≠ 1 → asksForHelp source = false →
        ∃ assembly, AssembledFrom session.files source assembly ∧
          after.files.read source = .ok assembly.image) := by
  obtain ⟨exit, after, ran, outcome⟩ :=
    exists_outcome program (source :: rest) session
  refine ⟨exit, after, ran, ?_⟩
  cases outcome with
  | refused _ logged =>
      exact ⟨fun _ => logged.files, fun _ => by rw [logged.files],
        fun _ succeeds => (succeeds rfl).elim⟩
  | usage shape help =>
      obtain ⟨rfl, rfl⟩ := List.cons.inj shape
      refine ⟨fun _ => rfl, fun _ => rfl, ?_⟩
      intro _ _ noHelp
      rw [noHelp] at help
      cases help
  | @delivered _ assembly _ _ produces delivered =>
      cases produces with
      | @intro _ options _ noHelp allName _ fromSource =>
          obtain rfl := eq_nil_of_noOutput allName noOutput
          obtain ⟨_, _, stored, _, _⟩ := delivered.exists_listing
          obtain ⟨bytes, text, read, fromText⟩ := fromSource
          obtain ⟨overwrites, keeps⟩ := read_of_write_imagePath read stored.written
          refine ⟨?_, ?_, ?_⟩
          · rintro (failed | help)
            · obtain ⟨succeeded, _⟩ | ⟨brokenOff, _⟩ := delivered.code_eq
              · rw [succeeded] at failed
                cases failed
              · rw [brokenOff] at failed
                cases failed
            · rw [noHelp] at help
              cases help
          · exact fun notImage => (keeps notImage).trans read.symm
          · exact fun namesImage _ _ =>
              ⟨assembly, ⟨bytes, text, read, fromText⟩, overwrites namesImage⟩

/-- A session with the same source under two names. -/
private def twoSources : Session where
  files := { entries := [
    (["x.asm"], .file (Text.Utf8.encode "HALT")),
    (["x.bin"], .file (Text.Utf8.encode "HALT"))] }
  fuel := 0

/-- Under the one name the source is kept, under the other its image takes its place. -/
theorem read_source_of_run_twoSources :
    (∃ exit after,
      (Assembler.run "assembler" ["x.asm"] : SessionM Exit).run twoSources =
        some (exit, after) ∧
      after.files.read "x.asm" = twoSources.files.read "x.asm") ∧
    ∃ exit after,
      (Assembler.run "assembler" ["x.bin"] : SessionM Exit).run twoSources =
        some (exit, after) ∧
      (exit.code ≠ 1 → ∃ assembly, AssembledFrom twoSources.files "x.bin" assembly ∧
        after.files.read "x.bin" = .ok assembly.image) := by
  have keepsName : ¬ NamesImage "x.asm" := by
    rw [@namesImage_iff "x.asm" "x.asm" (by decide +kernel)]
    decide +kernel
  have losesName : NamesImage "x.bin" := ⟨"x", by decide, by decide +kernel⟩
  have noOutput : ∀ argument ∈ ([] : List String), namesOutput argument = false := nofun
  constructor
  · obtain ⟨exit, after, ran, _, keeps, _⟩ :=
      @read_source_of_run "x.asm" [] noOutput "assembler" twoSources
    exact ⟨exit, after, ran, keeps keepsName⟩
  · obtain ⟨exit, after, ran, _, _, overwrites⟩ :=
      @read_source_of_run "x.bin" [] noOutput "assembler" twoSources
    exact ⟨exit, after, ran, fun succeeds => overwrites losesName succeeds (by decide)⟩

/-- Without an option that names a file, a source can be lost. -/
theorem exists_run_overwrites_source :
    ∃ exit after,
      (Assembler.run "assembler" ["x.bin"] : SessionM Exit).run twoSources =
        some (exit, after) ∧
      (twoSources.files.read "x.bin").toOption = some (Text.Utf8.encode "HALT") ∧
      (after.files.read "x.bin").toOption = some [0] := by
  have ran : ((Assembler.run "assembler" ["x.bin"] : SessionM Exit).run twoSources).map
      (fun result => (result.2.files.read "x.bin").toOption) = some (some [0]) := by
    decide +kernel
  obtain ⟨⟨exit, after⟩, ends, image⟩ := Option.map_eq_some_iff.mp ran
  exact ⟨exit, after, ends, by decide +kernel, image⟩

end RegisterMachine.Command.Assembler
