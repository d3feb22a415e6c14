import PageMeta.Value.Basic

/-!
# Descriptions

What the classes of the library and their functions say about themselves, for readers of the
language that the library speaks to its users in.

* `ClassName.description?` is the description of a class.
* `ClassName.functionDescription?` is the description of a function of a class.
-/

namespace PageMeta

/-- The description of a class of builders. -/
def BuilderKind.description : BuilderKind → String
  | .plain => "평면 키/값 버퍼 기반 빌더."
  | .metaTags => "메타 태그 빌더."
  | .openGraph => "Open Graph 빌더."
  | .article => "og:article 속성 빌더."
  | .twitterCards => "Twitter Cards 빌더."

/-- The description of a class of errors. -/
def ErrorClass.description : ErrorClass → String
  | .general => "SEO Builder 공통 베이스 예외."
  | .configuration => "설정 API를 잘못 사용했을 때 발생한다."
  | .validation => "설정/빌더 값이 검증 규칙을 위반할 때 발생한다."
  | .builderUse => "빌더/속성 맵을 잘못된 방식으로 호출했을 때 발생한다."
  | .fieldUse => "필드 호출 형태가 올바르지 않을 때 발생한다."
  | .undefinedKey => "한 번도 기록되지 않은 키를 이름 접근으로 읽을 때 발생한다."

namespace ClassName

/-- The description of a record schema. -/
def schemaDescription? : String → Option String
  | "MetaTagsDefaults" => some "메타 태그 기본값 모델."
  | "ImageDefaults" => some "Open Graph 기본 이미지 모델."
  | "OpenGraphDefaults" => some "Open Graph 기본값 모델."
  | "TwitterDefaults" => some "Twitter Cards 기본값 모델."
  | "StructuredDataDefaults" => some "구조화 데이터(JSON-LD) 기본값 모델."
  | "SitemapEntryDefaults" => some "사이트맵 URL 항목 기본값 모델."
  | "SitemapDefaults" => some "사이트맵 기본값 모델."
  | "UserAgentRule" => some "robots.txt user-agent 규칙 모델."
  | "RobotsDefaults" => some "robots.txt 기본값 모델."
  | "WebpDefaults" => some "WebP 변환 기본값 모델."
  | "ImagesDefaults" => some "이미지 최적화 기본값 모델."
  | "I18nDefaults" => some "다국어 리소스 기본값 모델."
  | "SeoDefaults" => some "전체 기본 설정 스키마 모델."
  | "RobotsDirective" => some "robots 메타 지시어 모델."
  | "MetaTagsPayload" => some "메타 태그 빌더 결과 모델."
  | "ArticlePayload" => some "og:article 속성 모델."
  | "OpenGraphPayload" => some "Open Graph 빌더 결과 모델."
  | "TwitterCardsPayload" => some "Twitter Cards 빌더 결과 모델."
  | _ => none

/-- The description of a class of the library. -/
def description? : ClassName → Option String
  | .builder kind => some kind.description
  | .dynamicField => some "선언되지 않은 필드 호출을 get/set/nested로 분기한다."
  | .attributeMap => some "재귀적으로 감싸지는 설정 섹션 저장소."
  | .settingsStore => some "SEO 설정 루트 객체."
  | .error cls => some cls.description
  | .record => none
  | .schema name => schemaDescription? name
  | .featureState => some "기능 플래그 조회 결과."
  | .sectionHandle => some "ConfigStore 섹션 읽기 전용 디스크립터."
  | .data _ => none

/-- The description of a function of attribute maps. -/
def mapDescription? : String → Option String
  | "get" => some "키 값을 반환한다. 기록되지 않은 키는 default를 반환한다."
  | "set" => some "키 값을 저장한다. 매핑 값은 DynamicAttributeMap으로 감싼다."
  | "merge" =>
    some <| "다른 매핑을 깊은 병합한다.\n\n" ++
      "        양쪽 값이 모두 매핑이면 재귀 병합하고, 그 외에는 들어온 값의 구조 복사본으로 덮어쓴다.\n" ++
      "        `other`에 없는 키는 그대로 유지된다.\n        "
  | "to_dict" => some "일반 dict/list/스칼라로 재귀 변환한 독립 복사본을 반환한다."
  | _ => none

/-- The description of a function of settings stores. -/
def storeDescription? : String → Option String
  | "load_from_dict" =>
    some <| "dict 설정을 병합한다.\n\n" ++
      "        존재하는 최상위 스칼라는 덮어쓰고, 존재하는 섹션은 깊은 병합한다.\n        "
  | "section" => some "이름으로 섹션을 반환한다."
  | "validate" => some "설정 불변 조건을 검사하고 위반 사항을 모두 모아 발생시킨다."
  | "to_dict" => some "전체 설정을 일반 dict로 변환한다."
  | _ => none

/-- The description of a function of all builders. -/
def builderDescription? : String → Option String
  | "set" => some "값을 저장하고 빌더를 반환한다."
  | "get" => some "값을 반환한다. 저장되지 않은 키는 None을 반환한다."
  | "nested" => some "같은 클래스의 새 빌더에서 block을 실행하고 빌드 결과를 name에 저장한다."
  | "evaluate" => some "block(self)를 실행한다. block이 없으면 아무것도 하지 않는다."
  | "validate" => some "하위 클래스에서 재정의하는 검증 훅."
  | "build" => some "검증 후 버퍼의 분리된 깊은 복사본을 반환한다."
  | "build_model" => some "`build()` 결과를 결과 계약 모델로 검증해 반환한다."
  | "to_dict" => some "검증 없이 현재 버퍼의 깊은 복사본을 반환한다."
  | "merge" => some "dict, 설정 섹션 또는 다른 빌더의 현재 버퍼를 얕은 병합한다."
  | _ => none

/-- The description of a function of a class. -/
def functionDescription? (owner : ClassName) (name : String) : Option String :=
  match owner, name with
  | .attributeMap, _ => mapDescription? name
  | .settingsStore, _ => storeDescription? name
  | .builder .plain, _ => builderDescription? name
  | .builder .metaTags, "robots" =>
    some "robots 지시어를 저장한다. 추가 지시어(noarchive 등)는 키워드 인자로 전달한다."
  | .builder .openGraph, "article" =>
    some "block이 있으면 ArticleBuilder로 구성해 저장하고, 없으면 현재 값을 반환한다."
  | _, _ => none

end ClassName

end PageMeta
