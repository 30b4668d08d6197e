import EpicsDb.Config
import EpicsDb.Content.Rules
import EpicsDb.Naming.Rules

/-!
# Checking a database

The checks that a configuration asks for, names before contents.
-/

namespace EpicsDb

/-- The report on a database. -/
def Database.check (db : Database) (config : Config) : Report :=
  let names := if config.names then db.namingReport config.strict else .empty
  let contents := if config.contents then db.contentReport else .empty
  names.append contents

end EpicsDb
