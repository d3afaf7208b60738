/-! Lines of source: their characters, which may be any. -/
namespace TalOutline

abbrev Line := List Char

end TalOutline
