-- A memory under writes that each give new contents to some of its places. The
-- last write to a place decides; where all the writes agree on the contents,
-- their order and their number make no difference.
import Mathlib.Data.List.Basic

namespace overlay

variable {ι α : Type}

end overlay
