import AssemblyInfo.Text.Basic

/-! The word by which declarations are known. -/

namespace AssemblyInfo.Declaration

/-- The word that follows the opening bracket. -/
def keyword : Text := "assembly".toList

end AssemblyInfo.Declaration
