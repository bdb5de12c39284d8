import QueryScope.Json.Value
import QueryScope.Catalog.StandIn

/-!
# Samples

Queries and catalogs to try things out on: flat and nested queries, queries that are hard to read or
still being typed, and a small schema of orders, customers and items.
-/

namespace QueryScope.Samples

/-- Sample queries by name. -/
def queries : List (String × String) := [
  ("simple_select", "SELECT * FROM DBM.ORDERS"),
  ("join_with_aliases",
    "SELECT o.id, c.name FROM DBM.ORDERS o JOIN DBM.CUSTOMERS c ON o.cust_id = c.id"),
  ("comma_join", "SELECT * FROM DBM.ORDERS o, DBM.CUSTOMERS AS c WHERE o.cust_id = c.id"),
  ("derived_table", "SELECT * FROM (SELECT id FROM DBM.T) AS derived"),
  ("scalar_subquery",
    "SELECT id, (SELECT COUNT(*) FROM DBM.ITEMS WHERE order_id = o.id) cnt FROM DBM.ORDERS o"),
  ("in_subquery",
    "SELECT * FROM DBM.ORDERS WHERE cust_id IN (SELECT id FROM DBM.VIP_CUSTOMERS)"),
  ("correlated_exists",
    "SELECT * FROM DBM.ORDERS o WHERE EXISTS (SELECT 1 FROM DBM.ITEMS i WHERE i.order_id = o.id)"),
  ("sibling_derived_tables",
    "SELECT * FROM\n            (SELECT id FROM DBM.A) sub_a\n            JOIN\n" ++
    "            (SELECT id FROM DBM.B) sub_b\n            ON sub_a.id = sub_b.id"),
  ("three_levels", "SELECT * FROM (SELECT * FROM (SELECT id FROM DBM.T) a) b"),
  ("nested_join",
    "SELECT a.id, b.total\n            FROM DBM.ACCOUNTS a\n            JOIN (\n" ++
    "                SELECT customer_id, SUM(amount) as total\n" ++
    "                FROM (SELECT order_id, customer_id, amount FROM DBM.ORDERS" ++
    " WHERE status = 'C') completed_orders\n" ++
    "                GROUP BY customer_id\n            ) b ON a.customer_id = b.customer_id"),
  ("case_expression",
    "SELECT x.status_text FROM (\n                SELECT id,\n" ++
    "                       CASE WHEN status = 'A' THEN 'Active' ELSE 'Other' END" ++
    " AS status_text\n" ++
    "                FROM DBM.ORDERS\n            ) x"),
  ("literal_noise", "SELECT 'a (SELECT' AS label -- ) (SELECT\nFROM DBM.ORDERS o"),
  ("unclosed_subquery", "SELECT * FROM DBM.ORDERS o WHERE o.id IN (SELECT "),
  ("isolation_clause", "SELECT * FROM DBM.ORDERS WITH UR")]

/-- A column of the sample catalog document, with the members that it does not leave out. -/
def documentColumn (name dataType : String) (others : List (String × Json)) : Json :=
  .record ([("data_type", .text dataType)] ++ others.filter (·.1 < "name") ++
    [("name", .text name)] ++ others.filter ("name" < ·.1))

/-- A member that says that a column is never null. -/
def notNull : String × Json := ("nullable", .boolean false)

/-- A member that says that a column belongs to the primary key. -/
def primaryKey : String × Json := ("is_primary_key", .boolean true)

/-- The sample catalog document. -/
def catalogDocument : Json :=
  .record [("default_schema", .text "DBM"),
    ("tables", .list [
      .record [
        ("columns", .list [
          documentColumn "ID" "BIGINT" [primaryKey, notNull],
          documentColumn "CUST_ID" "BIGINT" [notNull],
          documentColumn "ORDER_DATE" "DATE" [],
          documentColumn "AMOUNT" "DECIMAL(12,2)" [],
          documentColumn "STATUS" "CHAR(1)" [notNull]]),
        ("name", .text "ORDERS"),
        ("schema", .text "DBM")],
      .record [
        ("columns", .list [
          documentColumn "ID" "BIGINT" [primaryKey, notNull],
          documentColumn "NAME" "VARCHAR(100)" [notNull]]),
        ("name", .text "CUSTOMERS"),
        ("schema", .text "DBM")]])]

/-- The sample with a name: a query, or the catalog document on one line. -/
def text? (name : String) : Option String :=
  if name = "standard_catalog_json" then some catalogDocument.compact else queries.lookup name

/-- A column that is never null. -/
def required (name : String) (dataType : DataType) : Column :=
  ({ name, dataType : Column }).withNullable false

/-- The column of a key. -/
def keyColumn (name : String) : Column := ({ name, dataType := .bigInt : Column }).asPrimaryKey

/-- The sample schema. -/
def tables : List Table := [
  { name := "ORDERS", schema := "DBM", comment := some "Customer orders",
    columns := [keyColumn "ID", required "CUST_ID" .bigInt,
      { name := "ORDER_DATE", dataType := .date },
      { name := "AMOUNT", dataType := .decimal (some 12) (some 2) },
      required "STATUS" (.char (some 1))] },
  { name := "CUSTOMERS", schema := "DBM",
    columns := [keyColumn "ID", required "NAME" (.varchar (some 100)),
      { name := "REGION", dataType := .varchar (some 20) }] },
  { name := "ITEMS", schema := "DBM",
    columns := [keyColumn "ID", required "ORDER_ID" .bigInt,
      { name := "PRODUCT", dataType := .varchar (some 60) },
      { name := "QTY", dataType := .integer }] },
  { name := "VIP_CUSTOMERS", schema := "DBM",
    columns := [keyColumn "ID", { name := "TIER", dataType := .smallInt }] }]

/-- A stand-in with the sample schema. -/
def standIn : StandIn := tables.foldl StandIn.add {}

end QueryScope.Samples
