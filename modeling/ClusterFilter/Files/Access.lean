/-!
# ClusterFilter — access to files

What the program asks of the world: whether something stands at a path, what text a file holds,
and that a file hold a text from now on. Operations that can fail give the reason in the words of
the system, so that the program itself is the same over real files and over a file store in memory.
-/

namespace ClusterFilter

/-- Access to the files that paths lead to. -/
class FileAccess (m : Type → Type) where
  /-- Whether a file or a directory stands at the path. -/
  isPresent : String → m Bool
  /-- The text of the file, or the reason why there is no readable text. -/
  readText : String → m (Except String String)
  /-- Stores the text as the whole file and makes the directories above it. The result is the reason
  if that is not possible. -/
  writeText : String → String → m (Except String Unit)

end ClusterFilter
