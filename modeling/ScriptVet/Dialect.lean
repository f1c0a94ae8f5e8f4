import ScriptVet.Text

namespace ScriptVet

inductive Dialect where
  | bigquery | clickhouse | databricks | doris | drill | duckdb | hive | mysql | oracle | postgres
  | presto | redshift | snowflake | spark | sqlite | starrocks | teradata | trino | tsql
  deriving DecidableEq, Repr

namespace Dialect

def tag : Dialect → Text
  | bigquery => .ascii "bigquery"
  | clickhouse => .ascii "clickhouse"
  | databricks => .ascii "databricks"
  | doris => .ascii "doris"
  | drill => .ascii "drill"
  | duckdb => .ascii "duckdb"
  | hive => .ascii "hive"
  | mysql => .ascii "mysql"
  | oracle => .ascii "oracle"
  | postgres => .ascii "postgres"
  | presto => .ascii "presto"
  | redshift => .ascii "redshift"
  | snowflake => .ascii "snowflake"
  | spark => .ascii "spark"
  | sqlite => .ascii "sqlite"
  | starrocks => .ascii "starrocks"
  | teradata => .ascii "teradata"
  | trino => .ascii "trino"
  | tsql => .ascii "tsql"

def all : List Dialect :=
  [bigquery, clickhouse, databricks, doris, drill, duckdb, hive, mysql, oracle, postgres, presto,
    redshift, snowflake, spark, sqlite, starrocks, teradata, trino, tsql]

def ofTag? (t : Text) : Option Dialect := all.find? (·.tag = t)

/-- The name of a dialect, where no dialect means the generic grammar. -/
def name : Option Dialect → Text
  | none => .ascii "generic"
  | some d => d.tag

/-- The engines whose dialect is known. -/
def engines : List (Text × Dialect) :=
  [(.ascii "ascend", hive),
   (.ascii "awsathena", presto),
   (.ascii "bigquery", bigquery),
   (.ascii "clickhouse", clickhouse),
   (.ascii "clickhousedb", clickhouse),
   (.ascii "cockroachdb", postgres),
   (.ascii "couchbase", mysql),
   (.ascii "databricks", databricks),
   (.ascii "drill", drill),
   (.ascii "duckdb", duckdb),
   (.ascii "gsheets", sqlite),
   (.ascii "hana", postgres),
   (.ascii "hive", hive),
   (.ascii "mssql", tsql),
   (.ascii "mysql", mysql),
   (.ascii "netezza", postgres),
   (.ascii "oracle", oracle),
   (.ascii "postgresql", postgres),
   (.ascii "presto", presto),
   (.ascii "pydoris", doris),
   (.ascii "redshift", redshift),
   (.ascii "shillelagh", sqlite),
   (.ascii "snowflake", snowflake),
   (.ascii "spark", spark),
   (.ascii "sqlite", sqlite),
   (.ascii "starrocks", starrocks),
   (.ascii "superset", sqlite),
   (.ascii "teradatasql", teradata),
   (.ascii "trino", trino),
   (.ascii "vertica", postgres)]

def ofEngine? (engine : Text) : Option Dialect := (engines.find? (·.1 = engine)).map (·.2)

end Dialect

end ScriptVet
