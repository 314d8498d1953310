import HdlIndex.Command.Arguments

/-! Scripts that make a shell complete the names of commands. -/

namespace HdlIndex.Command

def programName : String := "hdlindex"

def commandWords : List String :=
  ["tokens", "preprocess", "symbols", "index", "completion", "help"]

/-- The script for a shell. -/
def Shell.completionScript (shell : Shell) : String :=
  let words := " ".intercalate commandWords
  match shell with
  | bash => "complete -o default -W \"" ++ words ++ "\" " ++ programName ++ "\n"
  | elvish =>
    "set edit:completion:arg-completer[" ++ programName ++ "] = \x7b|@words| put " ++ words ++
      " \x7d\n"
  | fish => "complete -c " ++ programName ++ " -n __fish_use_subcommand -a \"" ++ words ++ "\"\n"
  | powershell =>
    "Register-ArgumentCompleter -Native -CommandName " ++ programName ++
      " -ScriptBlock \x7b param($word) '" ++ words ++
      "'.Split(' ') | Where-Object \x7b $_ -like \"$word*\" \x7d \x7d\n"
  | zsh => "#compdef " ++ programName ++ "\n_arguments '1:command:(" ++ words ++ ")' '*:file:_files'\n"

end HdlIndex.Command
