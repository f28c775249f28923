namespace LoxLang

structure Prompt where
  left : String
  right : String
  indicator : String
  continuation : String
  historySearch : String
deriving DecidableEq

def Prompt.standard : Prompt where
  left := ">>> "
  right := ""
  indicator := ""
  continuation := "... "
  historySearch := ""

end LoxLang
