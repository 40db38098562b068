import DirectiveIndex.Source

namespace DirectiveIndex

/-- How much a notice matters. -/
inductive Level where
  | debug
  | info
  | warning
deriving DecidableEq, Repr

/-- A remark on the work done. -/
inductive Notice where
  /-- A file that could not be read. -/
  | skipped (path : Path) (reason : ReadError)
  /-- A file that was read, with the numbers of its imports and of its `solidity` pragmas. -/
  | scanned (path : Path) (imports solidity : Nat)
  /-- The number of files with metadata after the whole run. -/
  | finished (files : Nat)
deriving Repr

/-- How much a notice matters. -/
def Notice.level : Notice → Level
  | skipped _ _ => .warning
  | scanned _ _ _ => .debug
  | finished _ => .info

/-- A level as it is written. -/
def Level.text : Level → Text
  | debug => "DEBUG".toList
  | info => "INFO".toList
  | warning => "WARNING".toList

/-- The wording of a notice. -/
def Notice.message : Notice → Text
  | skipped path reason =>
    "Skipping unreadable file ".toList ++ path.text ++ [':', ' '] ++ reason.message
  | scanned path imports solidity =>
    path.text ++ [':', ' '] ++ Text.ofNat imports ++ " import(s), ".toList ++ Text.ofNat solidity ++
      " solidity pragma(s)".toList
  | finished files => "Scanned ".toList ++ Text.ofNat files ++ " file(s)".toList

/-- The part of the program that a notice is signed with. -/
def Notice.signature : Notice → Text
  | finished _ => "cli".toList
  | _ => "scanner.builder".toList

/-- A notice as a line of the log. -/
def Notice.line (notice : Notice) : Text :=
  notice.level.text ++ [' '] ++ notice.signature ++ [':', ' '] ++ notice.message

end DirectiveIndex
