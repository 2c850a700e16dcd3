import Cascade.Text.Bytes

/-!
# Who the program is
-/

namespace Cascade.Identity

def name : Bytes := text "cssdedup"

def version : Bytes := text "dev"

def revision : Bytes := text "unknown"

end Cascade.Identity
