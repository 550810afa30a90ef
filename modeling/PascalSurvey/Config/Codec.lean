/-
PascalSurvey/Config/Codec.lean

The JSON form of configurations.
-/
import PascalSurvey.Config.Basic
import PascalSurvey.Json.Codec

namespace PascalSurvey

open Json

def ScanSettings.toJson (s : ScanSettings) : Json :=
  .obj [("max_file_size", ofOption .nat s.maxFileSize), ("threads", ofOption .nat s.threads),
    ("batch_concurrency", ofOption .nat s.batchConcurrency),
    ("extra_system_prefixes", ofList .str s.extraSystemPrefixes),
    ("unit_extensions", ofList .str s.unitExtensions),
    ("extract_sql", ofOption .bool s.extractSql)]

def SqlSettings.toJson (s : SqlSettings) : Json :=
  .obj [("extra_reserved_words", ofList .str s.extraReservedWords),
    ("quote_reserved", ofOption .bool s.quoteReserved)]

def Config.toJson (c : Config) : Json :=
  .obj [("scan", c.scan.toJson), ("sql", c.sql.toJson)]

end PascalSurvey
