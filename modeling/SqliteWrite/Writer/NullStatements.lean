import SqliteWrite.Writer.Crashes
import SqliteWrite.Writer.StepLoop

/-! Texts that hold no statement: an empty one, a semicolon, a comment. They are compiled without an error to
the null pointer, and `execPrep` hands that to `sqlite3_clear_bindings`, which looks behind it. -/
namespace SqliteWrite
open Method

namespace Conn
variable {E : Engine} (c : Conn E)

end Conn

namespace MiniSQLite
variable {E : Engine} {db : MiniSQLite} {c : Conn E} {table : Bytes}

end MiniSQLite

namespace SQLiteWriter
variable {E : Engine} {w : SQLiteWriter} {c : Conn E} {table : Bytes}

end SQLiteWriter

namespace Sys
variable {E : Engine}

end Sys
end SqliteWrite
