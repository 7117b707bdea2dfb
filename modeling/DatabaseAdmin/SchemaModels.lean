import Mathlib.Data.List.Sort
import DatabaseAdmin.SqlDialect

/-! The canonical schema model that the tree, the differ and the DDL writers read. -/
namespace DatabaseAdmin.SchemaModels
open CodeUnits

inductive BaseType where
  | boolean | integer | bigint | decimal | float | string | text | binary | date | time | timestamp
  | interval | json | uuid | enum | set | array | geometry | network | xml | bit | money | objectid
  | document | unknown
  deriving DecidableEq

def BaseType.name : BaseType → String
  | boolean => "boolean"
  | integer => "integer"
  | bigint => "bigint"
  | decimal => "decimal"
  | float => "float"
  | string => "string"
  | text => "text"
  | binary => "binary"
  | date => "date"
  | time => "time"
  | timestamp => "timestamp"
  | interval => "interval"
  | json => "json"
  | uuid => "uuid"
  | enum => "enum"
  | set => "set"
  | array => "array"
  | geometry => "geometry"
  | network => "network"
  | xml => "xml"
  | bit => "bit"
  | money => "money"
  | objectid => "objectid"
  | document => "document"
  | unknown => "unknown"

structure TypeDescriptor where
  raw : Text
  base : BaseType
  length : Option Nat
  precision : Option Nat
  scale : Option Nat
  unsigned : Bool
  withTimezone : Bool
  values : List Text
  deriving DecidableEq

inductive GeneratedKind where
  | stored | virtual
  deriving DecidableEq

structure ColumnModel where
  name : Text
  position : Nat
  type : TypeDescriptor
  nullable : Bool
  defaultValue : Option Text
  autoIncrement : Bool
  generated : Option GeneratedKind
  generatedExpression : Option Text
  collation : Option Text
  charset : Option Text
  comment : Option Text
  deriving DecidableEq

inductive SortOrder where
  | asc | desc
  deriving DecidableEq

inductive NullsOrder where
  | first | last
  deriving DecidableEq

structure IndexColumn where
  name : Option Text
  expression : Option Text
  order : Option SortOrder
  length : Option Nat
  nulls : Option NullsOrder
  deriving DecidableEq

structure IndexModel where
  name : Text
  columns : List IndexColumn
  unique : Bool
  primary : Bool
  method : Option Text
  predicate : Option Text
  comment : Option Text
  deriving DecidableEq

inductive ReferentialAction where
  | noAction | restrict | cascade | setNull | setDefault
  deriving DecidableEq

structure ForeignKeyModel where
  name : Text
  columns : List Text
  refSchema : Option Text
  refTable : Text
  refColumns : List Text
  onUpdate : Option ReferentialAction
  onDelete : Option ReferentialAction
  deferrable : Bool
  deriving DecidableEq

structure CheckModel where
  name : Text
  expression : Text
  deriving DecidableEq

inductive TableKind where
  | table | view | materializedView | foreignTable | system
  deriving DecidableEq

structure TableModel where
  name : Text
  schema : Option Text
  kind : TableKind
  columns : List ColumnModel
  indexes : List IndexModel
  foreignKeys : List ForeignKeyModel
  checks : List CheckModel
  primaryKey : List Text
  primaryKeyName : Option Text
  comment : Option Text
  engine : Option Text
  collation : Option Text
  definition : Option Text
  partitioning : Option Text
  deriving DecidableEq

inductive RoutineKind where
  | function | procedure
  deriving DecidableEq

structure RoutineModel where
  name : Text
  schema : Option Text
  kind : RoutineKind
  language : Option Text
  returnType : Option Text
  arguments : Option Text
  definition : Option Text
  deterministic : Bool
  comment : Option Text
  deriving DecidableEq

structure SequenceModel where
  name : Text
  schema : Option Text
  start : Option Text
  increment : Option Text
  minValue : Option Text
  maxValue : Option Text
  cycle : Bool
  ownedBy : Option Text
  deriving DecidableEq

inductive TriggerTiming where
  | before | after | insteadOf
  deriving DecidableEq

inductive TriggerEvent where
  | insert | update | delete | truncate
  deriving DecidableEq

inductive TriggerOrientation where
  | row | statement
  deriving DecidableEq

structure TriggerModel where
  name : Text
  schema : Option Text
  table : Text
  timing : TriggerTiming
  events : List TriggerEvent
  orientation : Option TriggerOrientation
  condition : Option Text
  statement : Option Text
  deriving DecidableEq

structure EnumTypeModel where
  name : Text
  schema : Option Text
  values : List Text
  deriving DecidableEq

structure SchemaNamespace where
  name : Text
  comment : Option Text
  tables : List TableModel
  routines : List RoutineModel
  sequences : List SequenceModel
  triggers : List TriggerModel
  enums : List EnumTypeModel
  deriving DecidableEq

structure SchemaModel where
  engine : EngineKind
  namespaces : List SchemaNamespace
  deriving DecidableEq

def orderedColumns (t : TableModel) : List ColumnModel :=
  t.columns.insertionSort fun a b => a.position ≤ b.position

def isMysqlFamily (engine : EngineKind) : Bool := engine = .mysql ∨ engine = .mariadb

def sqlEngines : List EngineKind := [.mysql, .mariadb, .postgres, .sqlite]

end DatabaseAdmin.SchemaModels
