import RainMeta.Scan

/-!
# Walking through directories

The same dotrains as a scan finds, said by recursion on directories instead of a list of
directories yet to be visited.

* `Scan.walk`: the dotrains of a directory, then those of its subdirectories, one after another.
-/

namespace RainMeta.Scan

/-- The dotrains of a directory in the order of their names, followed by those below its
subdirectories. The recursion ends because the paths of subdirectories are longer, and paths
that are too long cannot be listed. -/
def walk (t : FileTree) (policy : Policy) (dir : Path) : Run (List DotrainFile) :=
  match _h : entriesOf t dir with
  | .error cause => do
    refuse policy dir cause
    return []
  | .ok entries => do
    let found ← entries.mapM (inspect t policy dir)
    let below ← (subdirectories dir entries found).attach.mapM fun ⟨sub, _⟩ => walk t policy sub
    return found.filterMap Found.dotrain? ++ below.flatten
termination_by 4097 - dir.size
decreasing_by
  rename_i hsub
  have := size_lt_of_mem_subdirectories hsub
  have := (length_le_of_entriesOf _h).2
  omega

end RainMeta.Scan
