import TreeShell.Builtin.Compare
import TreeShell.Builtin.Content
import TreeShell.Builtin.Directory
import TreeShell.Builtin.Edit
import TreeShell.Builtin.Exchange
import TreeShell.Builtin.Name
import TreeShell.Builtin.Order
import TreeShell.Builtin.Search
import TreeShell.Builtin.Tree

/-! All commands of the shell. -/
namespace TreeShell.Builtin

def commands : List Command :=
  [pwd, cd, ls, mkdir, touch, rm, mv, cp, write, cat, echo, succeed, fail, grep, sed, head, tail,
    wc, sort, uniq, tee, basename, dirname, find, diff, patch, importCommand, exportCommand]

def registry : Registry := Registry.registerAll [] commands

end TreeShell.Builtin
