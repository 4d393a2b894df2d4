/-!
Patterns as rules and attributes carry them: the source of a regular expression and its flags, kept
as they were written.
-/
namespace Abac

structure Pattern where
  source : String
  flags : String := ""
deriving DecidableEq, Repr

def Pattern.text (pattern : Pattern) : String := "/" ++ pattern.source ++ "/" ++ pattern.flags

end Abac
